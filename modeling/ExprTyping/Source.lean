import ExprTyping.Table

namespace ExprTyping

structure Location where
  line : Nat
  column : Nat
  deriving DecidableEq, Repr

def Location.text (l : Location) : String := toString l.line ++ ":" ++ toString (l.column + 1)

structure Source where
  description : String := ""
  lineOffsets : List Int := []
  positions : Table Int Int := {}

namespace Source

/-- The offsets just after the newlines of a text whose first character has offset `n`, each kept
as a signed word of 32 bits. -/
def lineStarts (n : Nat) : List Char → List Int
  | [] => []
  | c :: cs =>
    if c = '\n' then (Int32.ofNat (n + 1)).toInt :: lineStarts (n + 1) cs
    else lineStarts (n + 1) cs

def lineOffsetsOf (text : String) : List Int := 0 :: lineStarts 0 text.toList

def ofText (text : String) : Source := { lineOffsets := lineOffsetsOf text }

def position? (s : Source) (id : Int) : Option Int := s.positions.find? id

/-- The line whose start is the last one not after the offset, its number kept as a word of 32
bits. An offset before every line start is on the first line. -/
def locate (s : Source) (offset : Int) : Location :=
  match (s.lineOffsets.takeWhile (· ≤ offset)).reverse with
  | [] => ⟨1, offset.toNat⟩
  | start :: before => ⟨(UInt32.ofNat (before.length + 1)).toNat, (offset - start).toNat⟩

def location? (s : Source) (id : Int) : Option Location := (s.position? id).map s.locate

end Source

end ExprTyping
