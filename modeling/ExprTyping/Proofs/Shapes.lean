import ExprTyping.Bindings.Assign
import ExprTyping.Proofs.Parameters

namespace ExprTyping

namespace Ty

variable {t u v : Ty} {σ : String → Ty}

inductive SameHead : Ty → Ty → Prop
  | list (t u : Ty) : SameHead (.list t) (.list u)
  | map (k v l w : Ty) : SameHead (.map k v) (.map l w)
  | abstract (n : String) (ts us : List Ty) : SameHead (.abstract n ts) (.abstract n us)
  | function (r s : Ty) (ts us : List Ty) : SameHead (.function r ts) (.function s us)

namespace SameHead

attribute [simp] list map function

@[simp] theorem abstract_iff {a b : String} {ts us : List Ty} :
    SameHead (.abstract a ts) (.abstract b us) ↔ a = b := by
  constructor
  · rintro ⟨⟩
    rfl
  · rintro rfl
    exact .abstract a ts us

theorem symm (h : SameHead t u) : SameHead u t := by
  cases h <;> constructor

theorem trans (h : SameHead t u) (h' : SameHead u v) : SameHead t v := by
  cases h <;> cases h' <;> constructor

theorem inst (h : SameHead t u) (σ : String → Ty) : SameHead t (u.inst σ) := by
  cases h <;> constructor

theorem inst_both (h : SameHead t u) (σ : String → Ty) : SameHead (t.inst σ) (u.inst σ) :=
  ((h.inst σ).symm.inst σ).symm

theorem isParam_eq_false (h : SameHead t u) : t.isParam = false := by
  cases h <;> rfl

theorem inner?_eq_none (h : SameHead t u) : t.inner? = none := by
  cases h <;> rfl

theorem eq_of_children_eq (h : SameHead t u) (hc : t.children = u.children) : t = u := by
  cases h <;> simp_all [children]

theorem inst_eq_iff (h : SameHead t u) :
    t.inst σ = u.inst σ ↔ t.children.map (Ty.inst σ) = u.children.map (Ty.inst σ) := by
  rw [← children_inst h.isParam_eq_false, ← children_inst h.symm.isParam_eq_false]
  exact ⟨congrArg children, (h.inst_both σ).eq_of_children_eq⟩

end SameHead

theorem sameHead_of_inst_eq (hne : t ≠ u) (ht : t.isParam = false) (hu : u.isParam = false)
    (h : t.inst σ = u.inst σ) : SameHead t u ∨ ∃ v w, t = .typeOf v ∧ u = .typeOf w := by
  cases t with
  | typeOf v =>
    cases u with
    | typeOf w => exact .inr ⟨v, w, rfl, rfl⟩
    | _ => simp_all [Ty.inst, isParam]
  | _ => cases u <;> simp_all [Ty.inst, isParam]

inductive ShapePair : Ty → Ty → Prop
  | parts {t u : Ty} : SameHead t u → ShapePair t u
  | wrapper (p : Prim) (u : Ty) : ShapePair (.wrapper p) u
  | other {t u : Ty} : ¬ SameHead t u → (∀ p, t ≠ .wrapper p) → ShapePair t u

theorem shapePair (t u : Ty) : ShapePair t u := by
  by_cases hs : SameHead t u
  · exact .parts hs
  by_cases hw : ∃ p, t = .wrapper p
  · obtain ⟨p, rfl⟩ := hw
    exact .wrapper p u
  · exact .other hs (not_exists.1 hw)

def admits (t u : Ty) : Bool :=
  t.isWildcard || u.isWildcard ||
    match t, u with
    | null, u => u.isNullable
    | prim p, prim q | prim p, wrapper q => p == q
    | message a, message b => a == b
    | type, type | type, typeOf _ | typeOf _, type | typeOf _, typeOf _ => true
    | _, _ => false

end Ty

namespace Bindings

variable {rec : Bindings → Ty → Ty → Outcome} {t u : Ty}

theorem pairwise_singleton (m : Bindings) (t u : Ty) : pairwise rec m [t] [u] = rec m t u := by
  simp only [pairwise]
  cases rec m t u <;> rfl

theorem stepShape_of_sameHead (rec : Bindings → Ty → Ty → Outcome) (m : Bindings)
    (h : Ty.SameHead t u) : stepShape rec m t u = pairwise rec m t.children u.children := by
  cases h with
  | list t u => exact (pairwise_singleton m t u).symm
  | map => rfl
  | abstract n ts us => simp [stepShape, Ty.isWildcard, Ty.children]
  | function => rfl

theorem stepShape_wrapper (rec : Bindings → Ty → Ty → Outcome) (m : Bindings) (p : Prim) (u : Ty) :
    stepShape rec m (.wrapper p) u =
      if u.isWildcard then .assigned m else rec m (.prim p) u := by
  cases u <;> rfl

theorem stepShape_eq_accept (rec : Bindings → Ty → Ty → Outcome) (m : Bindings)
    (hs : ¬ Ty.SameHead t u) (hw : ∀ p, t ≠ .wrapper p) :
    stepShape rec m t u = accept m (t.admits u) := by
  cases t with
  | wrapper p => exact absurd rfl (hw p)
  | null => cases u <;> rfl
  | prim p =>
    cases u with
    | prim q => simp [stepShape, Ty.isWildcard, Ty.admits, accept, eq_comm (a := p)]
    | _ => rfl
  | _ => cases u <;> simp_all [stepShape, accept, Ty.isWildcard, Ty.admits]

end Bindings

end ExprTyping
