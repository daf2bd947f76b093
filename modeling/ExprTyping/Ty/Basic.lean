namespace ExprTyping

inductive Prim
  | bool | int | uint | double | string | bytes
  deriving DecidableEq, Repr

inductive WellKnown
  | any | timestamp | duration
  deriving DecidableEq, Repr

inductive Ty
  | prim (p : Prim)
  | wellKnown (w : WellKnown)
  | null
  | dyn
  | error
  /-- The type of type values whose nested type is left open. -/
  | type
  /-- The type of the type value `inner`. -/
  | typeOf (inner : Ty)
  | wrapper (p : Prim)
  | list (elem : Ty)
  | map (key value : Ty)
  | message (name : String)
  | abstract (name : String) (params : List Ty)
  | function (result : Ty) (args : List Ty)
  | param (name : String)
  deriving Repr, Inhabited

namespace Ty

mutual
def same : Ty → Ty → Bool
  | prim p, prim q => p == q
  | wellKnown v, wellKnown w => v == w
  | null, null => true
  | dyn, dyn => true
  | error, error => true
  | type, type => true
  | typeOf t, typeOf u => same t u
  | wrapper p, wrapper q => p == q
  | list t, list u => same t u
  | map k v, map l w => same k l && same v w
  | message m, message n => m == n
  | abstract m ts, abstract n us => m == n && sameAll ts us
  | function r ts, function s us => same r s && sameAll ts us
  | param m, param n => m == n
  | _, _ => false

def sameAll : List Ty → List Ty → Bool
  | [], [] => true
  | t :: ts, u :: us => same t u && sameAll ts us
  | _, _ => false
end

mutual
theorem same_iff : ∀ t u : Ty, same t u = true ↔ t = u
  | typeOf t, u => by cases u <;> simp [same, same_iff t]
  | list t, u => by cases u <;> simp [same, same_iff t]
  | map k v, u => by cases u <;> simp [same, same_iff k, same_iff v]
  | abstract n ts, u => by cases u <;> simp [same, sameAll_iff ts]
  | function r ts, u => by cases u <;> simp [same, same_iff r, sameAll_iff ts]
  | prim p, u => by cases u <;> simp [same]
  | wellKnown w, u => by cases u <;> simp [same]
  | null, u => by cases u <;> simp [same]
  | dyn, u => by cases u <;> simp [same]
  | error, u => by cases u <;> simp [same]
  | type, u => by cases u <;> simp [same]
  | wrapper p, u => by cases u <;> simp [same]
  | message n, u => by cases u <;> simp [same]
  | param n, u => by cases u <;> simp [same]

theorem sameAll_iff : ∀ ts us : List Ty, sameAll ts us = true ↔ ts = us
  | [], us => by cases us <;> simp [sameAll]
  | t :: ts, us => by cases us <;> simp [sameAll, same_iff t, sameAll_iff ts]
end

instance : DecidableEq Ty := fun t u => decidable_of_iff (same t u = true) (same_iff t u)

abbrev bool : Ty := prim .bool
abbrev int : Ty := prim .int
abbrev uint : Ty := prim .uint
abbrev double : Ty := prim .double
abbrev string : Ty := prim .string
abbrev bytes : Ty := prim .bytes
abbrev any : Ty := wellKnown .any
abbrev timestamp : Ty := wellKnown .timestamp
abbrev duration : Ty := wellKnown .duration

inductive Kind
  | error | dyn | null | primitive | wellKnown | wrapper | abstract | function | list | map | object
  | type | typeParam
  deriving DecidableEq, Repr

def kind : Ty → Kind
  | prim _ => .primitive
  | wellKnown _ => .wellKnown
  | null => .null
  | dyn => .dyn
  | error => .error
  | type => .type
  | typeOf _ => .type
  | wrapper _ => .wrapper
  | list _ => .list
  | map _ _ => .map
  | message _ => .object
  | abstract _ _ => .abstract
  | function _ _ => .function
  | param _ => .typeParam

def prim? : Ty → Option Prim
  | prim p => some p
  | _ => none

def isDyn : Ty → Bool
  | dyn => true
  | _ => false

def isWildcard : Ty → Bool
  | dyn => true
  | error => true
  | _ => false

def isParam : Ty → Bool
  | param _ => true
  | _ => false

def isNullable (t : Ty) : Bool :=
  match t.kind with
  | .abstract | .object | .null | .wellKnown | .wrapper => true
  | _ => false

def elem? : Ty → Option Ty
  | list t => some t
  | _ => none

def keyValue? : Ty → Option (Ty × Ty)
  | map k v => some (k, v)
  | _ => none

def inner? : Ty → Option Ty
  | typeOf t => some t
  | _ => none

def messageName? : Ty → Option String
  | message n => some n
  | _ => none

mutual
/-- The number of constructors; a wrapper also counts the primitive it wraps. -/
def size : Ty → Nat
  | typeOf t => t.size + 1
  | wrapper _ => 2
  | list t => t.size + 1
  | map k v => k.size + v.size + 1
  | abstract _ ts => sizeAll ts + 1
  | function r ts => sizeAll ts + r.size + 1
  | _ => 1

def sizeAll : List Ty → Nat
  | [] => 0
  | t :: ts => t.size + sizeAll ts
end

end Ty

end ExprTyping
