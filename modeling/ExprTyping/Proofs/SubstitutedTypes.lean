import ExprTyping.Proofs.Substitution

namespace ExprTyping.Bindings

open Relation

variable {m : Bindings} {p : String} {t u : Ty} {b : Bool}

theorem Substitutes.eq_subst (h : m.Substitutes b t u) (hm : m.Wf) : u = m.subst b t := by
  induction t using hm.wellFounded.induction generalizing u with
  | _ t ih =>
    have hchild : ∀ {c d}, c ∈ t.children → m.Substitutes b c d → d = m.subst b c :=
      fun hc hd => ih _ (.inl hc) hd
    have hall : ∀ {ts us}, (∀ c ∈ ts, c ∈ t.children) → List.Forall₂ (m.Substitutes b) ts us →
        us = ts.map (m.subst b) := by
      intro ts us hts hus
      induction hus with
      | nil => rfl
      | cons hd _ ihs =>
        simp only [List.forall_mem_cons] at hts
        rw [List.map_cons, hchild hts.1 hd, ihs hts.2]
    have hinst := hm.keys.subst_eq_inst b
    cases h with
    | @bound _ s _ hs h =>
      obtain ⟨p, rfl⟩ := hm.keys t s hs
      rw [hm.subst_bound hs]
      exact ih s (.inr hs) h
    | free hs => exact (hm.keys.subst_free hs).symm
    | typeOf _ h =>
      rw [hinst, Ty.inst, ← hinst, hchild (by simp [Ty.children]) h]
    | list _ h =>
      rw [hinst, Ty.inst, ← hinst, hchild (by simp [Ty.children]) h]
    | map _ hk hv =>
      rw [hinst, Ty.inst, ← hinst, ← hinst, hchild (by simp [Ty.children]) hk,
        hchild (by simp [Ty.children]) hv]
    | abstract _ h =>
      rw [hinst, Ty.inst, Ty.instAll_eq_map, ← funext hinst, hall (by simp [Ty.children]) h]
    | function _ hr h =>
      rw [hinst, Ty.inst, Ty.instAll_eq_map, ← hinst, ← funext hinst,
        hchild (by simp [Ty.children]) hr, hall (fun c hc => by simp [Ty.children, hc]) h]
    | atom _ ht => rw [hinst, Ty.inst_of_isAtom ht]

theorem Wf.substitutes_iff (hm : m.Wf) : m.Substitutes b t u ↔ u = m.subst b t := by
  constructor
  · exact fun h => h.eq_subst hm
  · rintro rfl
    exact hm.substitutes b t

section Irreducible

/-- Substitution finds no parameter to replace. -/
def Irreducible (m : Bindings) (toDyn : Bool) (t : Ty) : Prop :=
  ∀ p ∈ t.params, m.find? (.param p) = none ∧ toDyn = false

theorem Wf.irreducible_subst (hm : m.Wf) (b : Bool) (t : Ty) : m.Irreducible b (m.subst b t) := by
  intro p hp
  cases b with
  | false => exact ⟨(hm.mem_params_subst p hp).2, rfl⟩
  | true => simp [hm.keys.params_subst t] at hp

theorem Irreducible.subst_eq (h : m.Irreducible b t) (hk : m.ParamKeys) : m.subst b t = t := by
  calc m.subst b t = t.inst (m.solution b) := hk.subst_eq_inst b t
    _ = t.inst .param := by
      refine Ty.inst_congr fun p hp => ?_
      obtain ⟨hfree, rfl⟩ := h p hp
      exact hk.subst_free hfree
    _ = t := t.inst_param

theorem Wf.subst_eq_self_iff (hm : m.Wf) : m.subst b t = t ↔ m.Irreducible b t := by
  constructor
  · intro h
    exact h ▸ hm.irreducible_subst b t
  · exact fun h => h.subst_eq hm.keys

theorem Wf.subst_true_eq (hm : m.Wf) (t : Ty) :
    m.subst true t = subst {} true (m.subst false t) := by
  calc m.subst true t = t.inst (m.solution true) := hm.keys.subst_eq_inst true t
    _ = (m.subst false t).inst (m.solution true) := (hm.inst_subst hm.models_solution_toDyn t).symm
    _ = (m.subst false t).inst (solution {} true) := by
      refine Ty.inst_congr fun p hp => ?_
      have hfree := (hm.irreducible_subst false t p hp).1
      rw [solution, solution, hm.keys.subst_free hfree, Wf.empty.keys.subst_free rfl]
    _ = subst {} true (m.subst false t) := (Wf.empty.keys.subst_eq_inst true _).symm

end Irreducible

section Occurs

theorem Wf.mem_params_solution {q : String} (hm : m.Wf) (h : ReflTransGen m.Points q p)
    (hp : m.find? (.param p) = none) : p ∈ (m.solution false q).params := by
  induction h using ReflTransGen.head_induction_on with
  | refl =>
    rw [solution, hm.keys.subst_free hp]
    exact List.mem_singleton_self p
  | head hstep _ ih =>
    obtain ⟨s, hs, hr⟩ := hstep
    rw [solution, hm.subst_bound hs, hm.keys.subst_eq_inst]
    exact Ty.mem_params_inst.2 ⟨_, hr, ih⟩

theorem Wf.mem_params_subst_iff (hm : m.Wf) :
    p ∈ (m.subst false t).params ↔ m.Below t (.param p) ∧ m.find? (.param p) = none := by
  constructor
  · exact hm.mem_params_subst p
  · rintro ⟨hb, hp⟩
    obtain ⟨q, hq, hqp⟩ := hb.exists_reaches hm.keys
    rw [hm.keys.subst_eq_inst]
    exact Ty.mem_params_inst.2 ⟨q, hq, hm.mem_params_solution hqp hp⟩

theorem Wf.mentions_iff_mem_params (hm : m.Wf) (hp : m.find? (.param p) = none) :
    m.mentions (.param p) t = true ↔ p ∈ (m.subst false t).params := by
  rw [hm.mentions_iff, hm.mem_params_subst_iff, and_iff_left hp]

end Occurs

/-- Substitution in acyclic bindings of parameters gives every type its normal form: the recursion
through bindings ends with it and with nothing else, no bound parameter is left, and none at all
with `toDyn`, a second substitution changes nothing, and turning free parameters into `dyn` may come
last. The occurs check passes for a free parameter exactly if it is not in the normal form. -/
theorem subst_normalForm {m : Bindings} (hk : m.ParamKeys) (ha : m.Acyclic) (t : Ty) :
    (∀ b, (∀ u, m.Substitutes b t u ↔ u = m.subst b t) ∧
      (∀ p ∈ (m.subst b t).params, m.find? (.param p) = none) ∧
      m.subst b (m.subst b t) = m.subst b t) ∧
    (m.subst true t).params = [] ∧
    m.subst true t = subst {} true (m.subst false t) ∧
    ∀ p, m.find? (.param p) = none →
      (m.mentions (.param p) t = false ↔ p ∉ (m.subst false t).params) := by
  have hm : m.Wf := ⟨hk, ha⟩
  refine ⟨fun b => ⟨fun u => hm.substitutes_iff, fun p hp => ?_, ?_⟩, hk.params_subst t,
    hm.subst_true_eq t, fun p hp => ?_⟩
  · exact (hm.irreducible_subst b t p hp).1
  · exact hm.subst_eq_self_iff.2 (hm.irreducible_subst b t)
  · rw [← hm.mentions_iff_mem_params hp, Bool.not_eq_true]

theorem subst_normalForm_of_chain :
    let m : Bindings := Table.insert (Table.insert {} (.param "B") (.list (.param "C")))
      (.param "A") (.typeOf (.param "B"))
    let t : Ty := .function (.param "A") [.wrapper .int, .map .string (.param "B")]
    m.ParamKeys ∧ m.Acyclic ∧
      m.subst false t = .function (.typeOf (.list (.param "C")))
        [.wrapper .int, .map .string (.list (.param "C"))] ∧
      m.subst false (m.subst false t) = m.subst false t ∧
      m.subst true t = subst {} true (m.subst false t) ∧
      ¬ m.mentions (.param "C") t = false ∧ m.mentions (.param "D") t = false := by
  intro m t
  have hm : m.Wf := by
    have hB : Wf (Table.insert {} (.param "B") (.list (.param "C"))) :=
      Wf.empty.insert (Wf.empty.mentions_eq_false_iff.1 (by decide))
    exact hB.insert (hB.mentions_eq_false_iff.1 (by decide))
  obtain ⟨hsubst, -, htrue, hoccurs⟩ := subst_normalForm hm.keys hm.acyclic t
  refine ⟨hm.keys, hm.acyclic, rfl, (hsubst false).2.2, htrue, ?_, ?_⟩
  · rw [hoccurs "C" rfl]
    decide
  · exact (hoccurs "D" rfl).2 (by decide)

end ExprTyping.Bindings
