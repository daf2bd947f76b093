namespace ExprTyping.Descriptor.Wire

inductive Payload
  | varint (n : Nat)
  | fixed64
  | fixed32
  | bytes (bs : List UInt8)
  | startGroup
  | endGroup
  deriving DecidableEq, Repr

structure Token where
  number : Nat
  payload : Payload
  deriving DecidableEq, Repr

def varintFrom (count : Nat) : List UInt8 → Option (Nat × List UInt8)
  | [] => none
  | b :: bs =>
    if 10 ≤ count then none
    else if b < 0x80 then
      if count = 9 ∧ 2 ≤ b then none else some (b.toNat <<< (7 * count), bs)
    else
      (varintFrom (count + 1) bs).map fun (n, rest) =>
        (n + (b.toNat - 0x80) <<< (7 * count), rest)

def varint (bs : List UInt8) : Option (Nat × List UInt8) := varintFrom 0 bs

def take? (n : Nat) (bs : List UInt8) : Option (List UInt8 × List UInt8) :=
  if n ≤ bs.length then some (bs.take n, bs.drop n) else none

def payload (form : Nat) (bs : List UInt8) : Option (Payload × List UInt8) :=
  match form with
  | 0 => (varint bs).map fun (n, rest) => (.varint n, rest)
  | 1 => (take? 8 bs).map fun (_, rest) => (.fixed64, rest)
  | 2 => do
    let (n, rest) ← varint bs
    let (value, rest) ← take? n rest
    return (.bytes value, rest)
  | 3 => some (.startGroup, bs)
  | 4 => some (.endGroup, bs)
  | 5 => (take? 4 bs).map fun (_, rest) => (.fixed32, rest)
  | _ => none

/-- Reads a field. A key has at most 32 bits, and no field has number zero. -/
def token (bs : List UInt8) : Option (Token × List UInt8) := do
  let (key, rest) ← varint bs
  guard (key ≤ 0xFFFFFFFF && 8 ≤ key)
  let (value, rest) ← payload (key % 8) rest
  return (⟨key / 8, value⟩, rest)

def tokensIn : Nat → List UInt8 → Option (List Token)
  | _, [] => some []
  | 0, _ => none
  | n + 1, bs => do
    let (t, rest) ← token bs
    return t :: (← tokensIn n rest)

def tokens (bs : List UInt8) : Option (List Token) := tokensIn bs.length bs

def packedIn : Nat → List UInt8 → Option (List Nat)
  | _, [] => some []
  | 0, _ => none
  | n + 1, bs => do
    let (value, rest) ← varint bs
    return value :: (← packedIn n rest)

def packed (bs : List UInt8) : Option (List Nat) := packedIn bs.length bs

/-- The fields that are known. Others are skipped: a group of them must end with the number that it
started with, and may not nest deeper than `depth`. -/
def known (isKnown : Nat → Bool) (depth : Nat) : List Nat → List Token → Option (List Token)
  | [], [] => some []
  | _ :: _, [] => none
  | [], t :: ts =>
    if isKnown t.number then (known isKnown depth [] ts).map (t :: ·)
    else
      match t.payload with
      | .endGroup => none
      | .startGroup => if 0 < depth then known isKnown depth [t.number] ts else none
      | _ => if 0 < depth then known isKnown depth [] ts else none
  | g :: gs, t :: ts =>
    match t.payload with
    | .endGroup => if t.number = g then known isKnown depth gs ts else none
    | .startGroup =>
      if gs.length + 1 < depth then known isKnown depth (t.number :: g :: gs) ts else none
    | _ => if gs.length + 1 < depth then known isKnown depth (g :: gs) ts else none

end ExprTyping.Descriptor.Wire
