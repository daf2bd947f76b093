namespace ExprTyping.Text.Octal

def digit (n : Nat) : Char := Char.ofNat (n % 8 + 48)

def escape (b : UInt8) : List Char :=
  if b = 0x22 then ['\\', '"']
  else if b = 0x5C then ['\\', '\\']
  else if 0x20 ≤ b && b ≤ 0x7E then [Char.ofNat b.toNat]
  else ['\\', digit (b.toNat / 64), digit (b.toNat / 8), digit b.toNat]

def escapeAll (bs : List UInt8) : List Char := bs.flatMap escape

def digit? (c : Char) : Option Nat :=
  if '0' ≤ c && c ≤ '7' then some (c.toNat - 48) else none

def unescape : List Char → Option (List UInt8)
  | [] => some []
  | '\\' :: '"' :: rest => (unescape rest).map (0x22 :: ·)
  | '\\' :: '\\' :: rest => (unescape rest).map (0x5C :: ·)
  | '\\' :: x :: y :: z :: rest => do
    let a ← digit? x
    let b ← digit? y
    let c ← digit? z
    let bs ← unescape rest
    pure (UInt8.ofNat (64 * a + 8 * b + c) :: bs)
  | c :: rest => if c = '\\' then none else (unescape rest).map (UInt8.ofNat c.toNat :: ·)

end ExprTyping.Text.Octal
