import ExprTyping.Proofs.NeutralAssignment
import Mathlib.Data.List.Forall2

namespace ExprTyping

theorem Ty.isWildcard_iff {t : Ty} : t.isWildcard = true ↔ t = .dyn ∨ t = .error := by
  cases t <;> simp [isWildcard]

theorem Ty.params_of_isWildcard {t : Ty} (h : t.isWildcard = true) : t.params = [] := by
  rcases isWildcard_iff.1 h with rfl | rfl <;> rfl

theorem Ty.mostGeneral_dyn {t : Ty} (ht : t.isParam = false) : t.mostGeneral .dyn = .dyn := by
  cases t <;> simp_all [mostGeneral, lessSpecific, isParam]

namespace Bindings

variable {m m' : Bindings} {p : String} {s t u w : Ty}

theorem Wf.chainInduction (hm : m.Wf) {motive : Ty → Prop}
    (fixed : ∀ t, t.isParam = false → motive t)
    (free : ∀ p, m.find? (.param p) = none → motive (.param p))
    (bound : ∀ p s, m.find? (.param p) = some s → motive s → motive (.param p)) (t : Ty) :
    motive t := by
  induction t using hm.wellFounded.induction with
  | _ t ih =>
    cases t with
    | param p =>
      cases hs : m.find? (.param p) with
      | none => exact free p hs
      | some s => exact bound p s hs (ih s (.inr hs))
    | _ => exact fixed _ rfl

section Absorbs

theorem Wf.mentions_wildcard (hm : m.Wf) (hw : w.isWildcard = true) (p : String) :
    m.mentions (.param p) w = false := by
  rw [hm.mentions_eq_false_iff]
  exact not_below_of_closed hm.keys (Ty.params_of_isWildcard hw)

theorem Wf.assign_wildcard (hm : m.Wf) (ht : t.isParam = false) (hu : u.isParam = false)
    (hw : t.isWildcard = true ∨ u.isWildcard = true) : m.assign t u = .assigned m := by
  rw [hm.assign_eq_step, step, slot_of_isParam_eq_false hu]
  simp [stepLeft, slot_of_isParam_eq_false ht, stepShape, hw]

theorem Wf.wildcard_absorbs (hm : m.Wf) (hw : w.isWildcard = true) (t : Ty) :
    (∃ m', m.assign w t = .assigned m') ∧ ∃ m', m.assign t w = .assigned m' := by
  have hp := Ty.isParam_eq_false_of_closed (Ty.params_of_isWildcard hw)
  induction t using hm.chainInduction with
  | fixed t ht =>
    exact ⟨⟨m, hm.assign_wildcard hp ht (.inl hw)⟩, ⟨m, hm.assign_wildcard ht hp (.inr hw)⟩⟩
  | free q hq =>
    have hmen := hm.mentions_wildcard hw q
    exact ⟨⟨_, hm.assign_free_right hp hq hmen⟩, ⟨_, hm.assign_free_left hp hq hmen⟩⟩
  | bound q s hs ih =>
    obtain ⟨⟨m₁, h₁⟩, ⟨m₂, h₂⟩⟩ := ih
    rw [hm.assign_bound_right hp hs, hm.assign_bound_left hp hs, h₁, h₂]
    exact ⟨⟨_, rfl⟩, ⟨_, rfl⟩⟩

theorem Wf.assignAll_of_forall₂ {ts us : List Ty} (hm : m.Wf)
    (h : List.Forall₂ (fun t u => ∀ m : Bindings, m.Wf → ∃ m', m.assign t u = .assigned m') ts us) :
    ∃ m', m.assignAll ts us = .assigned m' := by
  rw [hm.assignAll_eq_pairwise]
  induction h generalizing m with
  | nil => exact ⟨m, rfl⟩
  | cons h _ ih =>
    obtain ⟨m₁, h₁⟩ := h m hm
    obtain ⟨m', h'⟩ := ih (assignIn_wf _ _ _ _ m₁ hm h₁)
    refine ⟨m', ?_⟩
    rw [pairwise, h₁]
    exact h'

end Absorbs

section Dyn

theorem Wf.rebind_eq_insert (hm : m.Wf) (ht : ¬ m.Below t (.param p)) :
    m.rebind (.param p) t = m.insert (.param p) t := by
  rw [rebind, hm.mentions_eq_false_iff.2 ht]
  rfl

theorem Wf.subst_insert_dyn (hm : m.Wf) (p : String) :
    subst (m.insert (.param p) .dyn) false (.param p) = .dyn := by
  rw [hm.subst_insert_self (not_below_of_closed hm.keys rfl), hm.keys.subst_of_closed rfl]

/-- A parameter to which `dyn` is assigned stands for it. -/
theorem Wf.subst_of_dyn_assigned (hm : m.Wf) (h : m.assign .dyn (.param p) = .assigned m') :
    m'.subst false (.param p) = .dyn := by
  cases hs : m.find? (.param p) with
  | none =>
    rw [hm.assign_free_right rfl hs (hm.mentions_wildcard rfl p)] at h
    cases h
    exact hm.subst_insert_dyn p
  | some s =>
    rw [hm.assign_bound_right rfl hs] at h
    obtain ⟨m₁, h₁, rfl⟩ := Outcome.rebind_eq_assigned h
    have hm₁ := assignIn_wf _ _ _ _ m₁ hm h₁
    have hgeneral : Ty.mostGeneral .dyn s = .dyn := by simp [Ty.mostGeneral, Ty.lessSpecific]
    rw [hgeneral, hm₁.rebind_eq_insert (not_below_of_closed hm₁.keys rfl)]
    exact hm₁.subst_insert_dyn p

/-- A parameter that is assigned to `dyn` stands for it. Along the chain the new binding is `dyn`,
or the next parameter, which stands for `dyn` already and does not lead back. -/
theorem Wf.subst_of_assigned_dyn (hm : m.Wf) (ht : t.isParam = true)
    (h : m.assign t .dyn = .assigned m') : m'.subst false t = .dyn := by
  induction t using hm.chainInduction generalizing m' with
  | fixed t hfixed => simp [hfixed] at ht
  | free q hq =>
    rw [hm.assign_free_left rfl hq (hm.mentions_wildcard rfl q)] at h
    cases h
    exact hm.subst_insert_dyn q
  | bound q s hs ih =>
    rw [hm.assign_bound_left rfl hs] at h
    obtain ⟨m₁, h₁, rfl⟩ := Outcome.rebind_eq_assigned h
    have hm₁ := assignIn_wf _ _ _ _ m₁ hm h₁
    cases hsp : s.isParam with
    | true =>
      obtain ⟨r, rfl⟩ := Ty.isParam_iff.1 hsp
      have hgeneral : (Ty.param r).mostGeneral .dyn = .param r := rfl
      have hrw := assignIn_rewrites (closed_not_below m q) (hm.not_below hs)
        (not_below_of_closed hm.keys rfl) h₁
      have hbelow := hrw.avoids.2 (.param r) (hm.not_below hs)
      rw [hgeneral, hm₁.rebind_eq_insert hbelow, hm₁.subst_insert_self hbelow, ih hsp h₁]
    | false =>
      rw [Ty.mostGeneral_dyn hsp, hm₁.rebind_eq_insert (not_below_of_closed hm₁.keys rfl)]
      exact hm₁.subst_insert_dyn q

end Dyn

/-- Wildcards absorb everything in acyclic bindings of parameters: a list of them is assignable to
and from every list of types of its length. A parameter that meets `dyn` on either side stands for
`dyn` afterwards, whether it was bound or not. -/
theorem assign?_wildcards {m : Bindings} (hk : m.ParamKeys) (ha : m.Acyclic) :
    (∀ ws ts : List Ty, ws.length = ts.length → (∀ w ∈ ws, w = .dyn ∨ w = .error) →
      (m.assignAll? ws ts).isSome ∧ (m.assignAll? ts ws).isSome) ∧
    ∀ p, (∃ m', m.assign? .dyn (.param p) = some m' ∧ m'.subst false (.param p) = .dyn) ∧
      ∃ m', m.assign? (.param p) .dyn = some m' ∧ m'.subst false (.param p) = .dyn := by
  have hm : m.Wf := ⟨hk, ha⟩
  refine ⟨fun ws ts hlen hws => ?_, fun p => ?_⟩
  · have hassigned : ∀ {ts us}, (∃ m', m.assignAll ts us = .assigned m') →
        (m.assignAll? ts us).isSome := by
      rintro ts us ⟨m', h⟩
      rw [assignAll?, h]
      rfl
    have hwild : ∀ w ∈ ws, w.isWildcard = true := fun w hw => Ty.isWildcard_iff.2 (hws w hw)
    constructor
    · refine hassigned (hm.assignAll_of_forall₂ (List.forall₂_iff_zip.2 ⟨hlen, ?_⟩))
      intro w t hmem m₁ hm₁
      exact (hm₁.wildcard_absorbs (hwild w (List.of_mem_zip hmem).1) t).1
    · refine hassigned (hm.assignAll_of_forall₂ (List.forall₂_iff_zip.2 ⟨hlen.symm, ?_⟩))
      intro t w hmem m₁ hm₁
      exact (hm₁.wildcard_absorbs (hwild w (List.of_mem_zip hmem).2) t).2
  · obtain ⟨⟨m₁, h₁⟩, ⟨m₂, h₂⟩⟩ := hm.wildcard_absorbs (w := .dyn) rfl (.param p)
    exact ⟨⟨m₁, Outcome.toOption_eq_some.2 h₁, hm.subst_of_dyn_assigned h₁⟩,
      m₂, Outcome.toOption_eq_some.2 h₂, hm.subst_of_assigned_dyn rfl h₂⟩

theorem assign?_wildcards_of_chain :
    let m : Bindings := Table.insert (Table.insert {} (.param "Q") (.list (.param "R")))
      (.param "P") (.param "Q")
    let ts : List Ty := [.param "Q", .list (.param "P"), .param "P", .param "R"]
    m.ParamKeys ∧ m.Acyclic ∧ (m.assignAll? [.error, .dyn, .dyn, .error] ts).isSome ∧
      (m.assignAll? ts [.error, .dyn, .dyn, .error]).isSome ∧
      (∃ m', m.assign? .dyn (.param "P") = some m' ∧ m'.subst false (.param "P") = .dyn ∧
        m'.find? (.param "P") = some .dyn) ∧
      ∃ m', m.assign? (.param "P") .dyn = some m' ∧ m'.subst false (.param "P") = .dyn ∧
        m'.find? (.param "P") = some (.param "Q") := by
  intro m ts
  have hm : m.Wf := by
    have hQ : Wf (Table.insert {} (.param "Q") (.list (.param "R"))) :=
      Wf.empty.insert (Wf.empty.mentions_eq_false_iff.1 (by decide))
    exact hQ.insert (hQ.mentions_eq_false_iff.1 (by decide))
  obtain ⟨hlists, hdyn⟩ := assign?_wildcards hm.keys hm.acyclic
  obtain ⟨hleft, hright⟩ := hlists [.error, .dyn, .dyn, .error] ts rfl (by simp)
  obtain ⟨⟨m₁, h₁, hs₁⟩, ⟨m₂, h₂, hs₂⟩⟩ := hdyn "P"
  refine ⟨hm.keys, hm.acyclic, hleft, hright, ⟨m₁, h₁, hs₁, ?_⟩, ⟨m₂, h₂, hs₂, ?_⟩⟩
  · cases h₁
    rfl
  · cases h₂
    rfl

end Bindings

end ExprTyping
