import ExprTyping.Proofs.Acyclic

/-!
# Substitution in well-formed bindings

The bounded substitution and occurs check do what the unbounded ones would: `subst` satisfies the
equations of the recursion through bindings, which always ends (`Wf.substitutes`), and `mentions`
decides `Below`. Substitution is the instantiation by `solution`, the most general one of all
instantiations that respect the bindings (`Models`).
-/

namespace ExprTyping

open Relation

theorem Ty.replace_eq_inst {f : Ty → Option Ty} (hf : ∀ u s, f u = some s → ∃ p, u = .param p)
    (t : Ty) : t.replace f = t.inst fun p => (f (.param p)).getD (.param p) := by
  have hnone : ∀ u, u.isParam = false → f u = none := by
    intro u hu
    by_contra hne
    obtain ⟨s, hs⟩ := Option.ne_none_iff_exists'.1 hne
    obtain ⟨p, rfl⟩ := hf u s hs
    simp [isParam] at hu
  induction t with
  | typeOf t ih => simp [replace, inst, hnone (.typeOf t) rfl, ih]
  | list t ih => simp [replace, inst, hnone (.list t) rfl, ih]
  | map k v ihk ihv => simp [replace, inst, hnone (.map k v) rfl, ihk, ihv]
  | abstract n ts ih => simpa [replace, inst, hnone (.abstract n ts) rfl] using ih
  | function r ts ihr ih => simpa [replace, inst, hnone (.function r ts) rfl, ihr] using ih
  | param n => simp [replace, inst]
  | _ =>
    simp only [replace]
    rw [hnone _ rfl]
    rfl

theorem Ty.partOf_param {p : String} {inside : String → Bool} {t : Ty} :
    (Ty.param p).partOf inside t = true ↔ ∃ q ∈ t.params, q = p ∨ inside q = true := by
  induction t with
  | typeOf t ih => simp [partOf, params, ih]
  | list t ih => simp [partOf, params, ih]
  | map k v ihk ihv => simp [partOf, params, ihk, ihv, or_and_right, exists_or]
  | abstract n ts ih =>
    simp only [partOf, params, partOfAny_eq_any, mem_paramsAll, Bool.or_eq_true, List.any_eq_true]
    grind
  | function r ts ihr ih =>
    simp only [partOf, params, partOfAny_eq_any, mem_paramsAll, Bool.or_eq_true, List.any_eq_true,
      List.mem_append, ihr]
    grind
  | param n => simp [partOf, params, @eq_comm _ p n]
  | _ => simp [partOf, params]

namespace Bindings

variable {m : Bindings} {p q : String} {s t u : Ty} {b : Bool}

def unsolved (toDyn : Bool) (p : String) : Ty := if toDyn then .dyn else .param p

/-- What each parameter stands for in the end. -/
def solution (m : Bindings) (toDyn : Bool) (p : String) : Ty := m.subst toDyn (.param p)

section Bounded

theorem substIn_zero (m : Bindings) (b : Bool) (t : Ty) :
    substIn 0 m b t = t.inst (unsolved b) := by
  rw [substIn, Ty.replace_eq_inst]
  · congr 1
    funext p
    cases b <;> rfl
  · intro u s h
    cases u <;> simp [unbound] at h
    exact ⟨_, rfl⟩

theorem substIn_succ (hk : m.ParamKeys) (n : Nat) (b : Bool) (t : Ty) :
    substIn (n + 1) m b t =
      t.inst fun p => ((m.find? (.param p)).map (substIn n m b)).getD (unsolved b p) := by
  rw [substIn, Ty.replace_eq_inst]
  · congr 1
    funext p
    cases m.find? (.param p) with
    | none => cases b <;> rfl
    | some s => rfl
  · intro u s h
    cases hu : m.find? u with
    | some v => exact hk u v hu
    | none =>
      cases u <;> simp [hu, unbound] at h
      exact ⟨_, rfl⟩

theorem Wf.substIn_eq (hm : m.Wf) {n k : Nat} (hn : m.rounds t ≤ n) (hk : m.rounds t ≤ k) :
    substIn n m b t = substIn k m b t := by
  have hfree : ∀ {t p}, m.rounds t ≤ 0 → p ∈ t.params → m.find? (.param p) = none := by
    intro t p ht hp
    by_contra hne
    obtain ⟨s, hs⟩ := Option.ne_none_iff_exists'.1 hne
    have hlt := hm.rounds_lt_of_mem_params hp hs
    omega
  induction n generalizing k t with
  | zero =>
    cases k with
    | zero => rfl
    | succ k =>
      rw [substIn_zero, substIn_succ hm.keys]
      refine Ty.inst_congr fun p hp => ?_
      rw [hfree hn hp]
      rfl
  | succ n ih =>
    cases k with
    | zero =>
      rw [substIn_zero, substIn_succ hm.keys]
      refine Ty.inst_congr fun p hp => ?_
      rw [hfree hk hp]
      rfl
    | succ k =>
      rw [substIn_succ hm.keys, substIn_succ hm.keys]
      refine Ty.inst_congr fun p hp => ?_
      cases hs : m.find? (.param p) with
      | none => rfl
      | some s =>
        have hlt := hm.rounds_lt_of_mem_params hp hs
        exact ih (by omega) (by omega)

theorem mentionsIn_zero : mentionsIn 0 m (.param p) t = true ↔ p ∈ t.params := by
  rw [mentionsIn, Ty.partOf_param]
  simp

theorem mentionsIn_succ {n : Nat} : mentionsIn (n + 1) m (.param p) t = true ↔
    ∃ q ∈ t.params,
      q = p ∨ ∃ s, m.find? (.param q) = some s ∧ mentionsIn n m (.param p) s = true := by
  rw [mentionsIn, Ty.partOf_param]
  refine exists_congr fun q => and_congr_right fun _ => or_congr_right ?_
  cases m.find? (.param q) <;> simp

theorem Wf.mentionsIn_iff (hm : m.Wf) {n : Nat} (hn : m.rounds t ≤ n) :
    mentionsIn n m (.param p) t = true ↔ m.Below t (.param p) := by
  induction n generalizing t with
  | zero =>
    rw [mentionsIn_zero]
    refine ⟨.of_mem_params, fun hb => ?_⟩
    obtain ⟨q, hq, hqp⟩ := hb.exists_reaches hm.keys
    rcases hqp.cases_head with rfl | ⟨r, ⟨s, hs, -⟩, -⟩
    · exact hq
    · have hlt := hm.rounds_lt_of_mem_params hq hs
      omega
  | succ n ih =>
    rw [mentionsIn_succ]
    constructor
    · rintro ⟨q, hq, rfl | ⟨s, hs, hmen⟩⟩
      · exact .of_mem_params hq
      · have hlt := hm.rounds_lt_of_mem_params hq hs
        exact .trans (.of_mem_params hq) (.trans (.bound hs) ((ih (by omega)).1 hmen))
    · intro hb
      obtain ⟨q, hq, hqp⟩ := hb.exists_reaches hm.keys
      refine ⟨q, hq, ?_⟩
      rcases hqp.cases_head with rfl | ⟨r, ⟨s, hs, hr⟩, hrp⟩
      · exact .inl rfl
      · have hlt := hm.rounds_lt_of_mem_params hq hs
        exact .inr ⟨s, hs, (ih (by omega)).2 (.trans (.of_mem_params hr) (.of_reaches hrp))⟩

end Bounded

theorem Wf.mentions_iff (hm : m.Wf) : m.mentions (.param p) t = true ↔ m.Below t (.param p) :=
  hm.mentionsIn_iff (rounds_le_size m t)

theorem Wf.mentions_eq_false_iff (hm : m.Wf) :
    m.mentions (.param p) t = false ↔ ¬ m.Below t (.param p) := by
  rw [← hm.mentions_iff, Bool.not_eq_true]

section Equations

theorem ParamKeys.subst_eq_inst (hk : m.ParamKeys) (b : Bool) (t : Ty) :
    m.subst b t = t.inst (m.solution b) := by
  change m.subst b t = t.inst fun p => m.subst b (.param p)
  simp only [subst]
  cases m.size with
  | zero => simp [substIn_zero, Ty.inst]
  | succ n => simp [substIn_succ hk, Ty.inst]

theorem ParamKeys.subst_of_closed (hk : m.ParamKeys) (ht : t.params = []) : m.subst b t = t := by
  rw [hk.subst_eq_inst, Ty.inst_eq_self ht]

theorem ParamKeys.subst_free (hk : m.ParamKeys) (h : m.find? (.param p) = none) :
    m.subst b (.param p) = unsolved b p := by
  simp only [subst]
  cases m.size with
  | zero => simp [substIn_zero, Ty.inst]
  | succ n => simp [substIn_succ hk, Ty.inst, h]

theorem Wf.subst_bound (hm : m.Wf) (h : m.find? (.param p) = some s) :
    m.subst b (.param p) = m.subst b s := by
  have hlt := hm.rounds_lt h
  have hle := rounds_le_size m (.param p)
  simp only [subst]
  cases hn : m.size with
  | zero => omega
  | succ n =>
    rw [substIn_succ hm.keys]
    simp only [Ty.inst, h, Option.map_some, Option.getD_some]
    exact hm.substIn_eq (by omega) (by omega)

@[simp] theorem ParamKeys.find?_eq_none (hk : m.ParamKeys) (h : t.isParam = false) :
    m.find? t = none := by
  by_contra hne
  obtain ⟨s, hs⟩ := Option.ne_none_iff_exists'.1 hne
  obtain ⟨p, rfl⟩ := hk t s hs
  simp [Ty.isParam] at h

theorem ParamKeys.params_subst (hk : m.ParamKeys) (t : Ty) : (m.subst true t).params = [] := by
  simp only [subst, List.eq_nil_iff_forall_not_mem]
  intro n
  generalize m.size = k
  induction k generalizing t with
  | zero => simp [substIn_zero, Ty.mem_params_inst, unsolved, Ty.params]
  | succ k ih =>
    rw [substIn_succ hk, Ty.mem_params_inst]
    rintro ⟨p, -, hp⟩
    cases hs : m.find? (.param p) with
    | none => simp [hs, unsolved, Ty.params] at hp
    | some s => exact ih s (by simpa [hs] using hp)

theorem Wf.forall_params (hm : m.Wf) {P : String → Prop}
    (free : ∀ q, m.Below t (.param q) → m.find? (.param q) = none → P q)
    (bound : ∀ q s, m.Below t (.param q) → m.find? (.param q) = some s →
      (∀ r ∈ s.params, P r) → P q) :
    ∀ q ∈ t.params, P q := by
  suffices h : ∀ u, m.Below t u → ∀ q ∈ u.params, P q from h t (.refl m t)
  intro u
  induction u using hm.wellFounded.induction with
  | _ u ih =>
    intro hu q hq
    rcases Ty.mem_params_iff.1 hq with rfl | ⟨c, hc, hqc⟩
    · cases hs : m.find? (.param q) with
      | none => exact free q hu hs
      | some s => exact bound q s hu hs (ih s (.inr hs) (hu.trans (.bound hs)))
    · exact ih c (.inl hc) (hu.trans (.child hc)) q hqc

theorem Wf.mem_params_subst (hm : m.Wf) :
    ∀ p ∈ (m.subst false t).params, m.Below t (.param p) ∧ m.find? (.param p) = none := by
  have hsolution : ∀ q ∈ t.params, ∀ p ∈ (m.solution false q).params,
      m.Below t (.param p) ∧ m.find? (.param p) = none := by
    refine hm.forall_params ?_ ?_
    · intro q hq hs p hp
      rw [solution, hm.keys.subst_free hs] at hp
      rw [List.mem_singleton.1 hp]
      exact ⟨hq, hs⟩
    · intro q s _ hs ih p hp
      rw [solution, hm.subst_bound hs, hm.keys.subst_eq_inst] at hp
      obtain ⟨r, hr, hp⟩ := Ty.mem_params_inst.1 hp
      exact ih r hr p hp
  intro p hp
  rw [hm.keys.subst_eq_inst] at hp
  obtain ⟨q, hq, hp⟩ := Ty.mem_params_inst.1 hp
  exact hsolution q hq p hp

theorem Wf.subst_insert (hm : m.Wf) (hm' : Wf (m.insert (.param p) u))
    (ht : ¬ m.Below t (.param p)) : subst (m.insert (.param p) u) b t = m.subst b t := by
  rw [hm'.keys.subst_eq_inst, hm.keys.subst_eq_inst]
  refine Ty.inst_congr (hm.forall_params ?_ ?_)
  · intro q hq hs
    have hpq : Ty.param p ≠ .param q := fun h => ht (h ▸ hq)
    have hs' : Table.find? (m.insert (.param p) u) (.param q) = none := by
      rw [Table.find?_insert_of_ne _ _ hpq, hs]
    simp only [solution]
    rw [hm'.keys.subst_free hs', hm.keys.subst_free hs]
  · intro q s hq hs ih
    have hpq : Ty.param p ≠ .param q := fun h => ht (h ▸ hq)
    have hs' : Table.find? (m.insert (.param p) u) (.param q) = some s := by
      rw [Table.find?_insert_of_ne _ _ hpq, hs]
    simp only [solution]
    rw [hm'.subst_bound hs', hm.subst_bound hs, hm'.keys.subst_eq_inst, hm.keys.subst_eq_inst]
    exact Ty.inst_congr ih

theorem Wf.subst_insert_self (hm : m.Wf) (ht : ¬ m.Below t (.param p)) :
    subst (m.insert (.param p) t) b (.param p) = m.subst b t := by
  have hm' := hm.insert ht
  rw [hm'.subst_bound (Table.find?_insert_self _ _ _), hm.subst_insert hm' ht]

end Equations

section Models

variable {σ : String → Ty}

/-- The instantiation `σ` respects the bindings. -/
def Models (σ : String → Ty) (m : Bindings) : Prop :=
  ∀ p t, m.find? (.param p) = some t → σ p = t.inst σ

theorem Wf.models_solution (hm : m.Wf) : Models (m.solution false) m := by
  intro p t ht
  rw [solution, hm.subst_bound ht, hm.keys.subst_eq_inst]

theorem Wf.models_solution_toDyn (hm : m.Wf) : Models (m.solution true) m := by
  intro p t ht
  rw [solution, hm.subst_bound ht, hm.keys.subst_eq_inst]

theorem Wf.inst_subst (hm : m.Wf) (hσ : Models σ m) (t : Ty) :
    (m.subst false t).inst σ = t.inst σ := by
  rw [hm.keys.subst_eq_inst, Ty.inst_inst]
  refine Ty.inst_congr (hm.forall_params ?_ ?_)
  · intro q _ hs
    rw [solution, hm.keys.subst_free hs]
    rfl
  · intro q s _ hs ih
    rw [solution, hm.subst_bound hs, hm.keys.subst_eq_inst, Ty.inst_inst, hσ q s hs]
    exact Ty.inst_congr ih

theorem Wf.subst_eq_subst_iff (hm : m.Wf) :
    m.subst false t = m.subst false u ↔ ∀ σ, Models σ m → t.inst σ = u.inst σ := by
  constructor
  · intro h σ hσ
    rw [← hm.inst_subst hσ t, ← hm.inst_subst hσ u, h]
  · intro h
    rw [hm.keys.subst_eq_inst, hm.keys.subst_eq_inst]
    exact h _ hm.models_solution

end Models

section Unbounded

/-- What the recursion through bindings, without a bound on its depth, makes of a type. A type for
which it does not end is related to nothing. -/
inductive Substitutes (m : Bindings) (toDyn : Bool) : Ty → Ty → Prop
  | bound {t s u : Ty} : m.find? t = some s → Substitutes m toDyn s u → Substitutes m toDyn t u
  | free {p : String} : m.find? (.param p) = none →
      Substitutes m toDyn (.param p) (unsolved toDyn p)
  | typeOf {t u : Ty} : m.find? (.typeOf t) = none → Substitutes m toDyn t u →
      Substitutes m toDyn (.typeOf t) (.typeOf u)
  | list {t u : Ty} : m.find? (.list t) = none → Substitutes m toDyn t u →
      Substitutes m toDyn (.list t) (.list u)
  | map {k v l w : Ty} : m.find? (.map k v) = none → Substitutes m toDyn k l →
      Substitutes m toDyn v w → Substitutes m toDyn (.map k v) (.map l w)
  | abstract {n : String} {ts us : List Ty} : m.find? (.abstract n ts) = none →
      List.Forall₂ (Substitutes m toDyn) ts us →
      Substitutes m toDyn (.abstract n ts) (.abstract n us)
  | function {r s : Ty} {ts us : List Ty} : m.find? (.function r ts) = none →
      Substitutes m toDyn r s → List.Forall₂ (Substitutes m toDyn) ts us →
      Substitutes m toDyn (.function r ts) (.function s us)
  | atom {t : Ty} : m.find? t = none → t.isAtom = true → Substitutes m toDyn t t

theorem Wf.substitutes (hm : m.Wf) (b : Bool) (t : Ty) : Substitutes m b t (m.subst b t) := by
  induction t using hm.wellFounded.induction with
  | _ t ih =>
    have hchild : ∀ c ∈ t.children, Substitutes m b c (m.subst b c) := fun c hc => ih c (.inl hc)
    have hall : ∀ ts : List Ty, (∀ c ∈ ts, c ∈ t.children) →
        List.Forall₂ (Substitutes m b) ts (ts.map (m.subst b)) := by
      intro ts hts
      exact List.forall₂_map_right_iff.2 (List.forall₂_same.2 fun c hc => hchild c (hts c hc))
    have hinst := hm.keys.subst_eq_inst b
    cases t with
    | param p =>
      cases hs : m.find? (.param p) with
      | none => exact hm.keys.subst_free hs ▸ .free hs
      | some s => exact hm.subst_bound hs ▸ .bound hs (ih s (.inr hs))
    | typeOf t =>
      rw [hinst, Ty.inst, ← hinst]
      exact .typeOf (hm.keys.find?_eq_none rfl) (hchild t (by simp [Ty.children]))
    | list t =>
      rw [hinst, Ty.inst, ← hinst]
      exact .list (hm.keys.find?_eq_none rfl) (hchild t (by simp [Ty.children]))
    | map k v =>
      rw [hinst, Ty.inst, ← hinst, ← hinst]
      exact .map (hm.keys.find?_eq_none rfl) (hchild k (by simp [Ty.children]))
        (hchild v (by simp [Ty.children]))
    | abstract n ts =>
      rw [hinst, Ty.inst, Ty.instAll_eq_map, ← funext hinst]
      exact .abstract (hm.keys.find?_eq_none rfl) (hall ts (by simp [Ty.children]))
    | function r ts =>
      rw [hinst, Ty.inst, Ty.instAll_eq_map, ← hinst, ← funext hinst]
      exact .function (hm.keys.find?_eq_none rfl) (hchild r (by simp [Ty.children]))
        (hall ts fun c hc => by simp [Ty.children, hc])
    | _ =>
      simp only [hinst, Ty.inst]
      exact .atom (hm.keys.find?_eq_none rfl) rfl

end Unbounded

end Bindings

end ExprTyping
