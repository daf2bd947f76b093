import ExprTyping.Decimal.Double

/-!
# The fewest decimal digits

`Magnitude.shortest` gives a decimal with the fewest digits that still rounds to the magnitude, and
among those the nearest one. All reals closer to a magnitude than to its neighbours round to it,
and the two ends of that interval do so when the mantissa is even. A grid of decimals meets the
interval only if one of the two grid points around the magnitude lies in it, so these two are
tested, from one digit on.
-/

namespace ExprTyping

structure Decimal where
  digits : Nat
  exponent : Int
  deriving DecidableEq, Repr

namespace Magnitude

def twoPow (e : Int) : Nat × Nat := (Nat.pow 2 e.toNat, Nat.pow 2 (-e).toNat)

/-- The largest `e` with `10 ^ e` at most the magnitude, for a magnitude of at least `10 ^ -400`. -/
def leading (x : Magnitude) : Int :=
  let (num, den) := twoPow x.exponent
  ((Nat.toDigits 10 (x.mantissa * num * Nat.pow 10 400 / den)).length : Int) - 401

/-- The point of the grid `10 ^ k` next to the magnitude that rounds to it, if there is one. -/
def onGrid? (x : Magnitude) (k : Int) : Option Nat :=
  let (num, den) := twoPow (x.exponent - 2)
  let up := num * Nat.pow 10 (-k).toNat
  let unit := den * Nat.pow 10 k.toNat
  let value := 4 * x.mantissa * up
  let low := (4 * x.mantissa - if x.tight then 1 else 2) * up
  let high := (4 * x.mantissa + 2) * up
  let closed := x.mantissa % 2 == 0
  let below := value / unit
  let above := below + 1
  let fitsBelow := low < below * unit || (closed && low == below * unit)
  let fitsAbove := above * unit < high || (closed && above * unit == high)
  match fitsBelow, fitsAbove with
  | true, true => some (if above * unit - value ≤ value - below * unit then above else below)
  | true, false => some below
  | false, true => some above
  | false, false => none

/-- Seventeen digits always suffice. -/
def shortest (x : Magnitude) : Decimal :=
  let e := x.leading
  let found := (List.range 17).findSome? fun (n : Nat) =>
    let k := e - n
    (x.onGrid? k).map fun d => Decimal.mk d k
  found.getD ⟨0, 0⟩

end Magnitude

end ExprTyping
