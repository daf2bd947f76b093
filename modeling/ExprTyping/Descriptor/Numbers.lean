namespace ExprTyping.Descriptor

/-- A range of numbers. The last one belongs to ranges of enum values, but not to those of
fields. -/
structure NumberRange where
  first : Int := 0
  last : Int := 0

namespace NumberRange

def has (r : NumberRange) (n : Int) : Bool := r.first ≤ n && n ≤ r.last

def hasBefore (r : NumberRange) (n : Int) : Bool := r.first ≤ n && n < r.last

end NumberRange

def isFieldNumber (n : Int) : Bool := 1 ≤ n && n ≤ 0x1FFFFFFF && !(19000 ≤ n && n < 20000)

/-- The numbers that a message sets apart: reserved ones are not used, and those for extensions are
used by what is marked as an extension and by nothing else. -/
structure NumberPlan where
  reserved : List NumberRange := []
  forExtensions : List NumberRange := []

def NumberPlan.admits (p : NumberPlan) (isExtension : Bool) (n : Int) : Bool :=
  isFieldNumber n && !p.reserved.any (·.hasBefore n) &&
    p.forExtensions.any (·.hasBefore n) == isExtension

end ExprTyping.Descriptor
