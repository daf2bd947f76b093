import ExprTyping.Descriptor.File

namespace ExprTyping.Descriptor

namespace Literal

def natural? (cs : List Char) : Option Nat :=
  if !cs.isEmpty && cs.all Char.isDigit then
    some (cs.foldl (fun n c => 10 * n + (c.toNat - '0'.toNat)) 0)
  else none

def integer? : List Char → Option Int
  | '-' :: cs => (natural? cs).map fun n => -(n : Int)
  | '+' :: cs => (natural? cs).map Int.ofNat
  | cs => (natural? cs).map Int.ofNat

def isSigned (low high : Int) (cs : List Char) : Bool :=
  (integer? cs).any fun n => low ≤ n && n ≤ high

def isUnsigned (high : Int) (cs : List Char) : Bool :=
  cs.head? != some '-' && (integer? cs).any (· ≤ high)

def unsigned : List Char → List Char
  | '-' :: cs => cs
  | '+' :: cs => cs
  | cs => cs

def isExponent : List Char → Bool
  | [] => true
  | c :: cs => (c == 'e' || c == 'E') && (natural? (unsigned cs)).isSome

def isPlainDecimal (cs : List Char) : Bool :=
  let rest := cs.dropWhile Char.isDigit
  match rest with
  | '.' :: fraction =>
    let after := fraction.dropWhile Char.isDigit
    (rest.length != cs.length || after.length != fraction.length) && isExponent after
  | _ => rest.length != cs.length && isExponent rest

def isDecimal (cs : List Char) : Bool :=
  let word := String.ofList ((unsigned cs).map Char.toLower)
  word == "inf" || word == "infinity" || word == "nan" || isPlainDecimal (unsigned cs)

def isOctalDigit (c : Char) : Bool := '0' ≤ c && c ≤ '7'

def isHexDigit (c : Char) : Bool :=
  c.isDigit || ('a' ≤ c && c ≤ 'f') || ('A' ≤ c && c ≤ 'F')

def startsHex : List Char → Bool
  | a :: b :: _ => (isHexDigit a || a == '+') && isHexDigit b
  | _ => false

def isEscaped : List Char → Bool
  | [] => true
  | '\\' :: c :: cs =>
    ("abfnrtv\\?'\"".toList.contains c || isOctalDigit c ||
      ((c == 'x' || c == 'X') && startsHex cs)) && isEscaped cs
  | c :: cs => c != '\\' && isEscaped cs

end Literal

def Scalar.admits (s : Scalar) (text : String) : Bool :=
  let cs := text.toList
  match s with
  | .double | .float => Literal.isDecimal cs
  | .int32 | .sint32 | .sfixed32 => Literal.isSigned (-0x80000000) 0x7FFFFFFF cs
  | .int64 | .sint64 | .sfixed64 => Literal.isSigned (-0x8000000000000000) 0x7FFFFFFFFFFFFFFF cs
  | .uint32 | .fixed32 => Literal.isUnsigned 0xFFFFFFFF cs
  | .uint64 | .fixed64 => Literal.isUnsigned 0xFFFFFFFFFFFFFFFF cs
  | .bool => text == "true" || text == "false"
  | .string => true
  | .bytes => Literal.isEscaped cs

end ExprTyping.Descriptor
