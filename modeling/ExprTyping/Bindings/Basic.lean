import ExprTyping.Table
import ExprTyping.Ty.Basic

namespace ExprTyping

abbrev Bindings := Table Ty Ty

namespace Ty

mutual
def replace (f : Ty → Option Ty) : Ty → Ty
  | typeOf t => (f (typeOf t)).getD (typeOf (t.replace f))
  | list t => (f (list t)).getD (list (t.replace f))
  | map k v => (f (map k v)).getD (map (k.replace f) (v.replace f))
  | abstract n ts => (f (abstract n ts)).getD (abstract n (replaceAll f ts))
  | function r ts => (f (function r ts)).getD (function (r.replace f) (replaceAll f ts))
  | t => (f t).getD t

def replaceAll (f : Ty → Option Ty) : List Ty → List Ty
  | [] => []
  | t :: ts => t.replace f :: replaceAll f ts
end

mutual
/-- Whether `x` is a part of a type, where `inside n` says whether it is a part of what the
parameter `n` stands for. A wrapper has its primitive as a part. -/
def partOf (x : Ty) (inside : String → Bool) : Ty → Bool
  | param n => x == param n || inside n
  | typeOf t => x == typeOf t || x.partOf inside t
  | wrapper p => x == wrapper p || x == prim p
  | list t => x == list t || x.partOf inside t
  | map k v => x == map k v || x.partOf inside k || x.partOf inside v
  | abstract n ts => x == abstract n ts || x.partOfAny inside ts
  | function r ts => x == function r ts || x.partOf inside r || x.partOfAny inside ts
  | t => x == t

def partOfAny (x : Ty) (inside : String → Bool) : List Ty → Bool
  | [] => false
  | t :: ts => x.partOf inside t || x.partOfAny inside ts
end

end Ty

namespace Bindings

def unbound (toDyn : Bool) : Ty → Option Ty
  | .param _ => if toDyn then some .dyn else none
  | _ => none

def substIn : Nat → Bindings → Bool → Ty → Ty
  | 0, _, toDyn, t => t.replace (unbound toDyn)
  | n + 1, m, toDyn, t => t.replace fun u =>
      match m.find? u with
      | some s => some (substIn n m toDyn s)
      | none => unbound toDyn u

/-- In bindings without a cycle no chain meets a key twice, so it has no more links than there are
bindings. -/
def subst (m : Bindings) (toDyn : Bool) (t : Ty) : Ty := substIn m.size m toDyn t

def mentionsIn : Nat → Bindings → Ty → Ty → Bool
  | 0, _, x, t => x.partOf (fun _ => false) t
  | k + 1, m, x, t =>
    x.partOf
      (fun n =>
        match m.find? (.param n) with
        | some s => mentionsIn k m x s
        | none => false)
      t

def mentions (m : Bindings) (x t : Ty) : Bool := mentionsIn m.size m x t

def weight (m : Bindings) : Nat := m.entries.foldr (fun e n => e.2.size + 1 + n) 0

end Bindings

end ExprTyping
