import ExprTyping.Bindings.Assign
import ExprTyping.Decl

namespace ExprTyping

def varName (n : Nat) : String := "_var" ++ toString n

def freshVar (n : Nat) : Ty := .param (varName n)

/-- The overloads a call may resolve to, and its type. -/
structure Resolution where
  overloads : List String
  result : Ty
  deriving DecidableEq

structure Trial where
  bindings : Bindings
  nextVar : Nat
  found : Option Resolution := none

namespace Overload

def freshParams (n : Nat) : List String → Bindings → Bindings × Nat
  | [], m => (m, n)
  | p :: ps, m => freshParams (n + 1) ps (m.insert (.param p) (freshVar n))

/-- The parameters and the result with fresh type variables, and the next number. If a type
parameter has the name of such a variable, then the bindings can have a cycle. To follow it would
never end, but here substitution stops after as many rounds as there are bindings. -/
def instantiate (o : Overload) (n : Nat) : List Ty × Ty × Nat :=
  if o.isParametric then
    let (m, next) := freshParams n o.typeParams {}
    (o.params.map (m.subst false), m.subst false o.result, next)
  else (o.params, o.result, n)

end Overload

namespace Resolution

def add (found : Option Resolution) (id : String) (result : Ty) : Resolution :=
  match found with
  | none => ⟨[id], result⟩
  | some r => ⟨r.overloads ++ [id], if r.result ≠ .dyn ∧ r.result ≠ result then .dyn else r.result⟩

end Resolution

namespace Trial

/-- Tries one overload. What it binds stays bound for the ones after it, and the variables it takes
stay taken if it does not match. -/
def overload (t : Trial) (args : List Ty) (o : Overload) : Trial :=
  let (params, result, next) := o.instantiate t.nextVar
  match t.bindings.assignAll? args params with
  | none => { t with nextVar := next }
  | some m =>
    { bindings := m, nextVar := next,
      found := some (Resolution.add t.found o.id (m.subst false result)) }

def all (t : Trial) (enabled : String → Bool) (receiver : Bool) (args : List Ty)
    (os : List Overload) : Trial :=
  (os.filter fun o => enabled o.id && o.receiver == receiver).foldl (·.overload args ·) t

end Trial

end ExprTyping
