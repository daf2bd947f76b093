import ExprTyping.Proofs.Renaming

namespace ExprTyping.Bindings

open Relation

variable {F : Set String} {m m' n : Bindings} {p : String} {s t u : Ty}

/-- The parameters of two types, and those that bindings lead to from them. -/
def footprint (m : Bindings) (t u : Ty) : Set String :=
  {p | ∃ q, (q ∈ t.params ∨ q ∈ u.params) ∧ ReflTransGen m.Points q p}

theorem over_footprint_left (m : Bindings) (t u : Ty) : t.Over (m.footprint t u) :=
  fun p hp => ⟨p, .inl hp, .refl⟩

theorem over_footprint_right (m : Bindings) (t u : Ty) : u.Over (m.footprint t u) :=
  fun p hp => ⟨p, .inr hp, .refl⟩

theorem over_footprint_of_find? (hp : p ∈ m.footprint t u) (hs : m.find? (.param p) = some s) :
    s.Over (m.footprint t u) := by
  obtain ⟨q, hq, hqp⟩ := hp
  intro r hr
  exact ⟨q, hq, hqp.tail ⟨s, hs, hr⟩⟩

theorem footprint_subset (ht : t.Over F) (hu : u.Over F)
    (hF : ∀ p ∈ F, ∀ s, m.find? (.param p) = some s → s.Over F) : m.footprint t u ⊆ F := by
  rintro p ⟨q, hq, hqp⟩
  induction hqp with
  | refl => exact hq.elim (ht q) (hu q)
  | @tail r x _ hrx ih =>
    obtain ⟨s, hs, hx⟩ := hrx
    exact hF r ih s hs x hx

theorem closed_footprint (hk : m.ParamKeys) (t u : Ty) :
    m.Closed (Ty.Over (m.footprint t u)) :=
  closed_over hk fun _ hp _ => over_footprint_of_find? hp

theorem assign?_rewrites_footprint (hk : m.ParamKeys) (h : m.assign? t u = some m') :
    Rewrites (Ty.Over (m.footprint t u)) m m' :=
  assign?_rewrites (closed_footprint hk t u) (over_footprint_left m t u)
    (over_footprint_right m t u) h

theorem agree_of_footprint (hm : m.Wf) (hn : n.Wf)
    (h : ∀ p ∈ m.footprint t u, n.find? (.param p) = m.find? (.param p)) :
    Agree (m.footprint t u) id m n where
  wf := hm
  wf' := hn
  inj := Set.injOn_id _
  find? p hp := by simp [h p hp]
  closed _ hp _ := over_footprint_of_find? hp

theorem assign?_of_footprint (hm : m.Wf) (hn : n.Wf)
    (h : ∀ p ∈ m.footprint t u, n.find? (.param p) = m.find? (.param p)) :
    Option.Rel (Agree (m.footprint t u) id) (m.assign? t u) (n.assign? t u) := by
  have hrel := (agree_of_footprint hm hn h).assign? (over_footprint_left m t u)
    (over_footprint_right m t u)
  simpa only [Ty.rename_id, id] using hrel

/-- An assignment keeps every binding outside its footprint, and binds the parameters inside only
to types over the footprint. Under other bindings that agree on the footprint it succeeds as well,
and binds the footprint alike. -/
theorem assign?_frame (hk : m.ParamKeys) (ha : m.Acyclic) (h : m.assign? t u = some m') :
    (∀ p ∉ m.footprint t u, m'.find? (.param p) = m.find? (.param p)) ∧
    (∀ p ∈ m.footprint t u, ∀ s, m'.find? (.param p) = some s →
      ∀ q ∈ s.params, q ∈ m.footprint t u) ∧
    ∀ n : Bindings, n.ParamKeys → n.Acyclic →
      (∀ p ∈ m.footprint t u, n.find? (.param p) = m.find? (.param p)) →
      ∃ n', n.assign? t u = some n' ∧
        ∀ p ∈ m.footprint t u, n'.find? (.param p) = m'.find? (.param p) := by
  have hrw := assign?_rewrites_footprint hk h
  refine ⟨fun p hp => ?_, fun p hp s hs => ?_, fun n hkn han hn => ?_⟩
  · exact hrw.find?_eq (Ty.over_param_iff.not.2 hp)
  · have hclosed := hrw.closed (closed_footprint hk t u)
    exact hclosed.bound _ s (Ty.over_param_iff.2 hp) hs
  · have hrel := assign?_of_footprint ⟨hk, ha⟩ ⟨hkn, han⟩ hn
    rw [h] at hrel
    generalize n.assign? t u = r at hrel ⊢
    cases hrel with
    | some hagree =>
      refine ⟨_, rfl, fun p hp => ?_⟩
      simpa using hagree.find? p hp

theorem assign?_frame_of_chain :
    let m₀ : Bindings := Table.insert {} (.param "A") (.list (.param "B"))
    let m : Bindings := m₀.insert (.param "C") (.list (.param "D"))
    let n : Bindings := m₀.insert (.param "D") .string
    let t := Ty.map (.param "A") (.param "E")
    let u := Ty.map (.list .int) (.param "B")
    ∃ m' n', m.assign? t u = some m' ∧ n.assign? t u = some n' ∧
      "C" ∉ m.footprint t u ∧ m'.find? (.param "C") = some (.list (.param "D")) ∧
      "B" ∈ m.footprint t u ∧ m'.find? (.param "B") = some (.param "E") ∧
      "E" ∈ m.footprint t u ∧ n'.find? (.param "B") = some (.param "E") := by
  intro m₀ m n t u
  have hm₀ : m₀.Wf := Wf.empty.insert (Wf.empty.mentions_eq_false_iff.1 (by decide))
  have hm : m.Wf := hm₀.insert (hm₀.mentions_eq_false_iff.1 (by decide +zetaReduce))
  have hn : n.Wf := hm₀.insert (hm₀.mentions_eq_false_iff.1 (by decide +zetaReduce))
  have hbound : ∀ p ∈ ({"A", "B", "E"} : Set String), n.find? (.param p) = m.find? (.param p) ∧
      ∀ s, m.find? (.param p) = some s → s.Over {"A", "B", "E"} := by
    rintro p (rfl | rfl | rfl)
    · refine ⟨rfl, fun s hs => ?_⟩
      cases hs
      simp [Ty.Over, Ty.params]
    · exact ⟨rfl, fun s hs => by cases hs⟩
    · exact ⟨rfl, fun s hs => by cases hs⟩
  have hsub : m.footprint t u ⊆ {"A", "B", "E"} :=
    footprint_subset (by simp [t, Ty.Over, Ty.params]) (by simp [u, Ty.Over, Ty.params])
      fun p hp => (hbound p hp).2
  have hB : "B" ∈ m.footprint t u := over_footprint_right m t u "B" (by simp [u, Ty.params])
  have hC : "C" ∉ m.footprint t u := fun h => by simpa using hsub h
  have hassign : m.assign? t u =
      some (((m.insert (.param "B") .int).insert (.param "E") .int).insert (.param "B")
        (.param "E")) := rfl
  obtain ⟨houtside, hinside, hlocal⟩ := assign?_frame hm.keys hm.acyclic hassign
  obtain ⟨n', hn', hagree⟩ := hlocal n hn.keys hn.acyclic fun p hp => (hbound p (hsub hp)).1
  refine ⟨_, n', hassign, hn', hC, houtside "C" hC, hB, rfl, ?_, hagree "B" hB⟩
  exact hinside "B" hB _ rfl "E" (by simp [Ty.params])

end ExprTyping.Bindings
