import ExprTyping.Ty.Basic

namespace ExprTyping.Ty

mutual
def lessSpecific : Ty → Ty → Bool
  | dyn, _ => true
  | param _, _ => true
  | _, dyn => false
  | _, param _ => false
  | abstract m ts, abstract n us => m == n && lessSpecificAll ts us
  | function r ts, function s us => lessSpecificAll ts us && lessSpecific r s
  | list t, list u => lessSpecific t u
  | map k v, map l w => lessSpecific k l && lessSpecific v w
  | t, u => t == u

def lessSpecificAll : List Ty → List Ty → Bool
  | [], [] => true
  | t :: ts, u :: us => lessSpecific t u && lessSpecificAll ts us
  | _, _ => false
end

/-- The wider of two types that unify; the second one if neither is the wider. -/
def mostGeneral (t u : Ty) : Ty := if t.lessSpecific u then t else u

end ExprTyping.Ty
