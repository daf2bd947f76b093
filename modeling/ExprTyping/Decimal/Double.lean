namespace ExprTyping

structure Double where
  bits : UInt64
  deriving DecidableEq, Repr

/-- A magnitude `mantissa * 2 ^ exponent`. `tight` says that the next smaller double is half as
far away as the next larger one. -/
structure Magnitude where
  mantissa : Nat
  exponent : Int
  tight : Bool
  deriving DecidableEq, Repr

namespace Double

def isNegative (x : Double) : Bool := x.bits >>> 63 == 1

def exponentField (x : Double) : Nat := (x.bits >>> 52 &&& 0x7FF).toNat

def fraction (x : Double) : Nat := (x.bits &&& 0xFFFFFFFFFFFFF).toNat

def isNaN (x : Double) : Bool := x.exponentField == 2047 && x.fraction != 0

def isZero (x : Double) : Bool := x.exponentField == 0 && x.fraction == 0

def finite? (x : Double) : Option Magnitude :=
  if x.exponentField = 2047 then none
  else if x.exponentField = 0 then some ⟨x.fraction, -1074, false⟩
  else
    some ⟨0x10000000000000 + x.fraction, (x.exponentField : Int) - 1075,
      x.fraction == 0 && x.exponentField != 1⟩

/-- Numeric equality: the two zeros are equal, and a NaN differs from itself. -/
def same (x y : Double) : Bool :=
  !x.isNaN && !y.isNaN && (x.bits == y.bits || (x.isZero && y.isZero))

end Double

end ExprTyping
