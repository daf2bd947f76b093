import ExprTyping.Checker.Reference
import ExprTyping.Checker.Resolution
import ExprTyping.Diagnostic
import ExprTyping.Env.Basic

namespace ExprTyping

structure AnnotatedTwice where
  id : Int
  deriving DecidableEq, Repr

structure State where
  bindings : Bindings := {}
  nextVar : Nat := 0
  types : Table Int Ty := {}
  references : Table Int Reference := {}
  reports : List (Int × Cause) := []

namespace State

/-- The same annotation may be written again, but a different one ends the check. -/
def setType (s : State) (id : Int) (t : Ty) : Except AnnotatedTwice State :=
  match s.types.find? id with
  | none => .ok { s with types := s.types.insert id t }
  | some u => if u = t then .ok s else .error ⟨id⟩

def setReference (s : State) (id : Int) (r : Reference) : Except AnnotatedTwice State :=
  match s.references.find? id with
  | none => .ok { s with references := s.references.insert id r }
  | some q => if q.same r then .ok s else .error ⟨id⟩

def typeAt (s : State) (id : Int) : Ty := (s.types.find? id).getD .error

def report (s : State) (id : Int) (c : Cause) : State :=
  { s with reports := s.reports ++ [(id, c)] }

def reportUndeclared (s : State) (env : Env) (id : Int) (name : String) : State :=
  s.report id (.undeclaredReference env.container.name name)

def fresh (s : State) : Ty × State := (freshVar s.nextVar, { s with nextVar := s.nextVar + 1 })

def orFresh (s : State) : Option Ty → Ty × State
  | some t => (t, s)
  | none => s.fresh

def subst (s : State) (t : Ty) : Ty := s.bindings.subst false t

def unify (s : State) (t u : Ty) : Bool × State :=
  match s.bindings.assign? t u with
  | some m => (true, { s with bindings := m })
  | none => (false, s)

def require (s : State) (t u : Ty) (id : Int) (c : Cause) : State :=
  match s.unify t u with
  | (true, s) => s
  | (false, s) => s.report id c

/-- Requires the type of a node to be `expected`. -/
def expect (s : State) (id : Int) (expected : Ty) : State :=
  let actual := s.typeAt id
  s.require actual expected id (.typeMismatch expected actual)

end State

end ExprTyping
