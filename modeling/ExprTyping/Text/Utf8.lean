namespace ExprTyping.Text.Utf8

/-- An open sequence: the bits read so far, the range the next byte must be in, and how many more
bytes follow that one. -/
structure Open where
  bits : Nat
  low : UInt8
  high : UInt8
  more : Nat

inductive Lead
  | single (c : Char)
  | opens (o : Open)
  | ill

def lead (b : UInt8) : Lead :=
  if b < 0x80 then .single (Char.ofNat b.toNat)
  else if b < 0xC2 then .ill
  else if b < 0xE0 then .opens ⟨b.toNat - 0xC0, 0x80, 0xBF, 0⟩
  else if b < 0xF0 then
    .opens ⟨b.toNat - 0xE0, if b = 0xE0 then 0xA0 else 0x80, if b = 0xED then 0x9F else 0xBF, 1⟩
  else if b < 0xF5 then
    .opens ⟨b.toNat - 0xF0, if b = 0xF0 then 0x90 else 0x80, if b = 0xF4 then 0x8F else 0xBF, 2⟩
  else .ill

/-- One unit for each character, and an empty one for each ill-formed part. Such a part is as long
as it can be while it is still the start of a well-formed sequence. -/
def unitsFrom : Option Open → List UInt8 → List (Option Char)
  | none, [] => []
  | some _, [] => [none]
  | none, b :: bs =>
    match lead b with
    | .single c => some c :: unitsFrom none bs
    | .opens o => unitsFrom (some o) bs
    | .ill => none :: unitsFrom none bs
  | some o, b :: bs =>
    if o.low ≤ b && b ≤ o.high then
      let bits := o.bits * 64 + (b.toNat - 0x80)
      match o.more with
      | 0 => some (Char.ofNat bits) :: unitsFrom none bs
      | n + 1 => unitsFrom (some ⟨bits, 0x80, 0xBF, n⟩) bs
    else
      none ::
        match lead b with
        | .single c => some c :: unitsFrom none bs
        | .opens o => unitsFrom (some o) bs
        | .ill => none :: unitsFrom none bs

def units (bs : List UInt8) : List (Option Char) := unitsFrom none bs

def decode? (bs : List UInt8) : Option String := ((units bs).mapM id).map String.ofList

def decodeLossy (bs : List UInt8) : String :=
  String.ofList ((units bs).map fun u => u.getD (Char.ofNat 0xFFFD))

end ExprTyping.Text.Utf8
