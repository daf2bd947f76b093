import ExprTyping.Proofs.Rewriting
import Mathlib.Tactic.Ring

/-!
# The depth of assignability

In well-formed bindings assignability never runs out of depth. A step that follows a binding or
opens a wrapper on one side leaves fewer types below that side. A step into two shapes may lead to
other bindings, but these stay within what was below the two types, and one of the two types is no
longer below the children: else each of them would be below the other. `effort` counts both, and
is bounded by the size of the types and bindings.

So the bound on the depth plays no part in any answer, and assignability obeys its own rules
(`Wf.assign_eq_step`).
-/

namespace ExprTyping

namespace Bindings

variable {rec rec' : Bindings → Ty → Ty → Outcome} {m m' : Bindings} {S : Finset Ty}
  {p : String} {c d s t u : Ty}

/-- A bound on the depth of assignability from `t` to `u` when all types of the run are in `S`. -/
noncomputable def effort (m : Bindings) (S : Finset Ty) (t u : Ty) : Nat :=
  (m.reach S t ∪ m.reach S u).card * (2 * S.card + 1) +
    ((m.reach S t).card + (m.reach S u).card)

theorem effort_comm (m : Bindings) (S : Finset Ty) (t u : Ty) :
    m.effort S t u = m.effort S u t := by
  simp only [effort, Finset.union_comm, Nat.add_comm]

theorem effort_le (m : Bindings) (S : Finset Ty) (t u : Ty) :
    m.effort S t u ≤ S.card * (2 * S.card + 1) + 2 * S.card := by
  have hunion : (m.reach S t ∪ m.reach S u).card ≤ S.card := by
    refine Finset.card_le_card fun x hx => ?_
    rcases Finset.mem_union.1 hx with hx | hx <;> exact (mem_reach.1 hx).1
  have hmul := Nat.mul_le_mul_right (2 * S.card + 1) hunion
  have ht := card_reach_le m S t
  have hu := card_reach_le m S u
  simp only [effort]
  omega

theorem Wf.effort_lt_left (hm : m.Wf) (h : m.Step t s) (ht : t ∈ S) :
    m.effort S s u < m.effort S t u := by
  have hlt := card_reach_lt (.single h) (hm.not_below_of_step h) ht
  have hunion : (m.reach S s ∪ m.reach S u).card ≤ (m.reach S t ∪ m.reach S u).card :=
    Finset.card_le_card (Finset.union_subset_union_left (reach_mono (.single h)))
  have hmul := Nat.mul_le_mul_right (2 * S.card + 1) hunion
  simp only [effort]
  omega

theorem Wf.effort_lt_right (hm : m.Wf) (h : m.Step u s) (hu : u ∈ S) :
    m.effort S t s < m.effort S t u := by
  rw [effort_comm m S t s, effort_comm m S t u]
  exact hm.effort_lt_left h hu

theorem Wf.effort_lt_both (hm : m.Wf) (hm' : Rewrites (fun x => m.Below t x ∨ m.Below u x) m m')
    (hc : c ∈ t.children) (hd : d ∈ u.children) (ht : t ∈ S) (hu : u ∈ S) :
    m'.effort S c d < m.effort S t u := by
  have hwf' := hm'.wf hm
  have hbelow : ∀ {x y}, m.Below t x ∨ m.Below u x → m'.Below x y → m.Below t y ∨ m.Below u y :=
    hm'.of_below (fun _ hx _ hc => hx.imp (.trans · (.child hc)) (.trans · (.child hc)))
      (fun _ _ hx hs => hx.imp (.trans · (.bound hs)) (.trans · (.bound hs)))
  have hsub : m'.reach S c ∪ m'.reach S d ⊆ m.reach S t ∪ m.reach S u := by
    intro x hx
    simp only [Finset.mem_union, mem_reach] at hx ⊢
    rcases hx with ⟨hxS, hx⟩ | ⟨hxS, hx⟩
    · exact (hbelow (.inl (.child hc)) hx).imp (⟨hxS, ·⟩) (⟨hxS, ·⟩)
    · exact (hbelow (.inr (.child hd)) hx).imp (⟨hxS, ·⟩) (⟨hxS, ·⟩)
  -- if both types were still below the children, they would be below each other
  have hlost : ¬ (t ∈ m'.reach S c ∪ m'.reach S d ∧ u ∈ m'.reach S c ∪ m'.reach S d) := by
    simp only [Finset.mem_union, mem_reach]
    rintro ⟨⟨-, htc⟩ | ⟨-, htd⟩, ⟨-, huc⟩ | ⟨-, hud⟩⟩
    · exact hwf'.not_below_of_step (.inl hc) htc
    · exact hwf'.not_below_of_step (.inl hc) htc
    · exact hwf'.not_below_of_step (.inl hc) (huc.trans (.trans (.child hd) htd))
    · exact hwf'.not_below_of_step (.inl hd) hud
  have hlt : (m'.reach S c ∪ m'.reach S d).card < (m.reach S t ∪ m.reach S u).card := by
    apply Finset.card_lt_card
    refine ⟨hsub, fun hsup => hlost ⟨hsup ?_, hsup ?_⟩⟩
    · exact Finset.mem_union_left _ (mem_reach.2 ⟨ht, .refl m t⟩)
    · exact Finset.mem_union_right _ (mem_reach.2 ⟨hu, .refl m u⟩)
  have hmul := Nat.mul_le_mul_right (2 * S.card + 1) hlt
  have hc' := card_reach_le m' S c
  have hd' := card_reach_le m' S d
  simp only [effort]
  rw [Nat.succ_mul] at hmul
  omega

theorem Outcome.rebind_ne_exhausted {o : Outcome} (h : o ≠ .exhausted) :
    o.rebind s t ≠ .exhausted := by
  cases o with
  | assigned m => simp [Outcome.rebind]
  | refused => simp [Outcome.rebind]
  | exhausted => exact absurd rfl h

theorem pairwise_ne_exhausted {A : Ty → Prop} {ts us : List Ty}
    (hrw : ∀ m t u m', m.Closed A → A t → A u → rec m t u = .assigned m' → Rewrites A m m')
    (hrec : ∀ m', Rewrites A m m' → ∀ t ∈ ts, ∀ u ∈ us, rec m' t u ≠ .exhausted)
    (hA : m.Closed A) (hts : ∀ t ∈ ts, A t) (hus : ∀ u ∈ us, A u) :
    pairwise rec m ts us ≠ .exhausted := by
  induction ts generalizing m us with
  | nil => cases us <;> simp [pairwise]
  | cons t ts ih =>
    cases us with
    | nil => simp [pairwise]
    | cons u us =>
      simp only [List.forall_mem_cons] at hts hus
      simp only [pairwise]
      cases hr : rec m t u with
      | assigned m₁ =>
        have h₁ := hrw m t u m₁ hA hts.1 hus.1 hr
        refine ih (fun m' hm' t ht u hu => ?_) (h₁.closed hA) hts.2 hus.2
        exact hrec m' (h₁.trans hm') t (List.mem_cons_of_mem _ ht) u (List.mem_cons_of_mem _ hu)
      | refused => simp
      | exhausted => exact absurd hr (hrec m .refl t List.mem_cons_self u List.mem_cons_self)

theorem ShapeCase.ne_exhausted {A : Ty → Prop} {o : Outcome} (hc : ShapeCase rec m t u o)
    (hrw : ∀ m t u m', m.Closed A → A t → A u → rec m t u = .assigned m' → Rewrites A m m')
    (hA : m.Closed A) (ht : A t) (hu : A u)
    (hleft : t.inner? = none → ∀ c ∈ t.children, rec m c u ≠ .exhausted)
    (hboth : t.inner? = none → u.inner? = none → ∀ m', Rewrites A m m' →
      ∀ c ∈ t.children, ∀ d ∈ u.children, rec m' c d ≠ .exhausted) :
    o ≠ .exhausted := by
  cases hc with
  | accept => simp
  | refuse => simp
  | unwrap hi hc => exact hleft hi _ hc
  | parts hti hui hts hus =>
    refine pairwise_ne_exhausted hrw ?_ hA ?_ ?_
    · exact fun m' hm' c hc d hd => hboth hti hui m' hm' c (hts c hc) d (hus d hd)
    · exact fun c hc => hA.child t c ht hti (hts c hc)
    · exact fun d hd => hA.child u d hu hui (hus d hd)

theorem Wf.step_ne_exhausted (hm : m.Wf) (hS : m.Closed (· ∈ S)) (ht : t ∈ S) (hu : u ∈ S)
    (hrw : ∀ (A : Ty → Prop) m t u m', m.Closed A → A t → A u → rec m t u = .assigned m' →
      Rewrites A m m')
    (hrec : ∀ m' c d, m'.Wf → m'.Closed (· ∈ S) → c ∈ S → d ∈ S →
      m'.effort S c d < m.effort S t u → rec m' c d ≠ .exhausted) :
    step rec m t u ≠ .exhausted := by
  generalize ho : step rec m t u = o
  have hcase := step_case rec m t u
  rw [ho] at hcase
  cases hcase with
  | same | bindRight | bindLeft => simp
  | followRight _ hs =>
    have hlt := hm.effort_lt_right (t := t) (.inr hs) hu
    exact Outcome.rebind_ne_exhausted (hrec m t _ hm hS ht (hS.bound _ _ hu hs) hlt)
  | followLeft _ _ hs =>
    have hlt := hm.effort_lt_left (u := u) (.inr hs) ht
    exact Outcome.rebind_ne_exhausted (hrec m _ u hm hS (hS.bound _ _ ht hs) hu hlt)
  | shape =>
    have hA : m.Closed fun x => (m.Below t x ∨ m.Below u x) ∧ x ∈ S :=
      ⟨fun x y hx hi hc => ⟨hx.1.imp (.trans · (.child hc)) (.trans · (.child hc)),
          hS.child x y hx.2 hi hc⟩,
        fun x y hx hs => ⟨hx.1.imp (.trans · (.bound hs)) (.trans · (.bound hs)),
          hS.bound x y hx.2 hs⟩⟩
    refine (stepShape_case _ m t u).ne_exhausted (hrw _) hA ⟨.inl (.refl m t), ht⟩
      ⟨.inr (.refl m u), hu⟩ ?_ ?_
    · intro hi c hc
      have hlt := hm.effort_lt_left (u := u) (.inl hc) ht
      exact hrec m c u hm hS (hS.child t c ht hi hc) hu hlt
    · intro hti hui m' hm' c hc d hd
      have hlt := hm.effort_lt_both (hm'.mono fun _ hx => hx.1) hc hd ht hu
      exact hrec m' c d (hm'.wf hm) ((hm'.mono fun _ hx => hx.2).closed hS)
        (hS.child t c ht hti hc) (hS.child u d hu hui hd) hlt

theorem assignIn_ne_exhausted {n : Nat} (hm : m.Wf) (hS : m.Closed (· ∈ S)) (ht : t ∈ S)
    (hu : u ∈ S) (hn : m.effort S t u < n) : assignIn n m t u ≠ .exhausted := by
  -- on the depth, which every recursive call of the step has more of than effort
  induction n generalizing m t u with
  | zero => omega
  | succ n ih =>
    refine hm.step_ne_exhausted hS ht hu (fun _ _ _ _ _ => assignIn_rewrites) ?_
    exact fun m' c d hm' hS' hc hd hlt => ih hm' hS' hc hd (by omega)

section Bound

def allParts (m : Bindings) (ts us : List Ty) : Finset Ty :=
  (m.entries.flatMap (·.2.parts) ++ Ty.partsAll ts ++ Ty.partsAll us).toFinset

theorem mem_allParts {x : Ty} {ts us : List Ty} : x ∈ m.allParts ts us ↔
    (∃ e ∈ m.entries, x ∈ e.2.parts) ∨ x ∈ Ty.partsAll ts ∨ x ∈ Ty.partsAll us := by
  simp [allParts]

theorem mem_allParts_left {ts us : List Ty} (h : t ∈ ts) : t ∈ m.allParts ts us :=
  mem_allParts.2 (.inr (.inl (Ty.mem_partsAll.2 ⟨t, h, Ty.mem_parts_self t⟩)))

theorem mem_allParts_right {ts us : List Ty} (h : u ∈ us) : u ∈ m.allParts ts us :=
  mem_allParts.2 (.inr (.inr (Ty.mem_partsAll.2 ⟨u, h, Ty.mem_parts_self u⟩)))

theorem closed_allParts (m : Bindings) (ts us : List Ty) : m.Closed (· ∈ m.allParts ts us) where
  child x c hx _ hc := by
    rw [mem_allParts] at hx ⊢
    refine hx.imp ?_ (Or.imp ?_ ?_)
    · rintro ⟨e, he, hx⟩
      exact ⟨e, he, Ty.children_mem_parts hx hc⟩
    · exact fun hx => Ty.children_mem_partsAll hx hc
    · exact fun hx => Ty.children_mem_partsAll hx hc
  bound x y _ hb :=
    mem_allParts.2 (.inl ⟨(x, y), Table.mem_entries_of_find? hb, Ty.mem_parts_self y⟩)

theorem length_flatMap_parts (es : List (Ty × Ty)) : (es.flatMap (·.2.parts)).length ≤
    es.foldr (fun e n => e.2.size + 1 + n) 0 := by
  induction es with
  | nil => simp
  | cons e es ih =>
    simp only [List.flatMap_cons, List.length_append, Ty.length_parts, List.foldr_cons]
    omega

theorem card_allParts_le (m : Bindings) (ts us : List Ty) :
    (m.allParts ts us).card ≤ m.weight + Ty.sizeAll ts + Ty.sizeAll us := by
  refine Nat.le_trans (List.toFinset_card_le _) ?_
  have := length_flatMap_parts m.entries
  simp only [List.length_append, Ty.length_partsAll, weight]
  omega

/-- The depth bound suffices for every pair of types of the run. -/
theorem assignIn_depthBound_ne_exhausted {w : Nat} (hm : m.Wf) (hS : m.Closed (· ∈ S)) (ht : t ∈ S)
    (hu : u ∈ S) (hw : S.card ≤ w) : assignIn (depthBound w) m t u ≠ .exhausted := by
  refine assignIn_ne_exhausted hm hS ht hu (Nat.lt_of_le_of_lt (effort_le m S t u) ?_)
  have hmul : S.card * (2 * S.card + 1) ≤ w * (2 * w + 1) :=
    Nat.mul_le_mul hw (by omega)
  have hbound : depthBound w = w * (2 * w + 1) + 2 * w + 2 * w + 3 := by
    simp only [depthBound]
    ring
  omega

theorem Wf.assign_ne_exhausted (hm : m.Wf) (t u : Ty) : m.assign t u ≠ .exhausted := by
  refine assignIn_depthBound_ne_exhausted hm (closed_allParts m [t] [u])
    (mem_allParts_left (by simp)) (mem_allParts_right (by simp)) ?_
  simpa [Ty.sizeAll] using card_allParts_le m [t] [u]

theorem Wf.assignAll_ne_exhausted (hm : m.Wf) (ts us : List Ty) :
    m.assignAll ts us ≠ .exhausted := by
  have hS := closed_allParts m ts us
  refine pairwise_ne_exhausted (fun _ _ _ _ => assignIn_rewrites) ?_ hS
    (fun t ht => mem_allParts_left ht) (fun u hu => mem_allParts_right hu)
  intro m' hm' t ht u hu
  exact assignIn_depthBound_ne_exhausted (hm'.wf hm) (hm'.closed hS) (mem_allParts_left ht)
    (mem_allParts_right hu) (card_allParts_le m ts us)

end Bound

section Unbounded

structure Answers (rec rec' : Bindings → Ty → Ty → Outcome) : Prop where
  wf : ∀ m t u m', m.Wf → rec m t u = .assigned m' → m'.Wf
  eq : ∀ m t u, m.Wf → rec m t u ≠ .exhausted → rec' m t u = rec m t u

namespace Answers

theorem pairwise (h : Answers rec rec') {ts us : List Ty} (hm : m.Wf)
    (hne : pairwise rec m ts us ≠ .exhausted) : pairwise rec' m ts us = pairwise rec m ts us := by
  induction ts generalizing m us with
  | nil => cases us <;> rfl
  | cons t ts ih =>
    cases us with
    | nil => rfl
    | cons u us =>
      simp only [Bindings.pairwise] at hne ⊢
      cases hr : rec m t u with
      | assigned m₁ =>
        rw [h.eq m t u hm (by simp [hr]), hr]
        simp only [hr] at hne
        exact ih (h.wf m t u m₁ hm hr) hne
      | refused => rw [h.eq m t u hm (by simp [hr]), hr]
      | exhausted => simp [hr] at hne

theorem stepShape (h : Answers rec rec') (hm : m.Wf) (hne : stepShape rec m t u ≠ .exhausted) :
    stepShape rec' m t u = stepShape rec m t u := by
  cases Ty.shapePair t u with
  | parts hs =>
    rw [stepShape_of_sameHead rec m hs] at hne ⊢
    rw [stepShape_of_sameHead rec' m hs, h.pairwise hm hne]
  | wrapper p u =>
    rw [stepShape_wrapper] at hne ⊢
    rw [stepShape_wrapper]
    split
    · rfl
    · next hw => exact h.eq m (.prim p) u hm (by simpa [hw] using hne)
  | other hs hw => rw [stepShape_eq_accept rec m hs hw, stepShape_eq_accept rec' m hs hw]

theorem rebind (h : Answers rec rec') (hm : m.Wf) {x g : Ty}
    (hne : (rec m t u).rebind x g ≠ .exhausted) :
    (rec' m t u).rebind x g = (rec m t u).rebind x g := by
  rw [h.eq m t u hm]
  intro hr
  simp [hr, Outcome.rebind] at hne

theorem stepLeft (h : Answers rec rec') (hm : m.Wf) (hne : stepLeft rec m t u ≠ .exhausted) :
    stepLeft rec' m t u = stepLeft rec m t u := by
  simp only [Bindings.stepLeft] at hne ⊢
  cases hslot : m.slot t with
  | bound s =>
    simp only [hslot] at hne
    exact h.rebind hm hne
  | free =>
    cases hmen : m.mentions t u with
    | true =>
      simp only [hslot, hmen, if_true] at hne
      simp only [if_true, h.stepShape hm hne]
    | false => rfl
  | fixed =>
    simp only [hslot] at hne
    exact h.stepShape hm hne

theorem step (h : Answers rec rec') (hm : m.Wf) (hne : step rec m t u ≠ .exhausted) :
    step rec' m t u = step rec m t u := by
  simp only [Bindings.step] at hne ⊢
  by_cases htu : t = u
  · simp [htu]
  simp only [htu, if_false] at hne ⊢
  cases hslot : m.slot u with
  | bound s =>
    simp only [hslot] at hne
    exact h.rebind hm hne
  | free =>
    cases hmen : m.mentions u t with
    | true =>
      simp only [hslot, hmen, if_true] at hne
      simp only [if_true, h.stepLeft hm hne]
    | false => rfl
  | fixed =>
    simp only [hslot] at hne
    exact h.stepLeft hm hne

end Answers

theorem assignIn_wf (n : Nat) (m : Bindings) (t u : Ty) (m' : Bindings) (hm : m.Wf)
    (h : assignIn n m t u = .assigned m') : m'.Wf :=
  (assignIn_rewrites (.all m) trivial trivial h).wf hm

theorem answers_assignIn {n k : Nat} (hnk : n ≤ k) : Answers (assignIn n) (assignIn k) := by
  refine ⟨assignIn_wf n, ?_⟩
  induction n generalizing k with
  | zero => exact fun m t u _ hne => absurd rfl hne
  | succ n ih =>
    obtain ⟨k, rfl⟩ : ∃ j, k = j + 1 := ⟨k - 1, by omega⟩
    exact fun m t u hm hne => Answers.step ⟨assignIn_wf n, ih (by omega)⟩ hm hne

/-- The depth bound plays no part in an answer. -/
theorem answers_assign (n : Nat) : Answers (assignIn n) assign := by
  refine ⟨assignIn_wf n, fun m t u hm hne => ?_⟩
  rw [assign]
  rcases Nat.le_total n (depthBound (m.weight + t.size + u.size)) with h | h
  · exact (answers_assignIn h).eq m t u hm hne
  · exact ((answers_assignIn h).eq m t u hm (hm.assign_ne_exhausted t u)).symm

theorem exists_assign_eq_step (m : Bindings) (t u : Ty) :
    ∃ n, m.assign t u = step (assignIn n) m t u := by
  obtain ⟨n, hn⟩ : ∃ n, depthBound (m.weight + t.size + u.size) = n + 1 :=
    Nat.exists_eq_add_one_of_ne_zero (by simp [depthBound])
  exact ⟨n, by rw [assign, hn, assignIn]⟩

theorem assign_self (m : Bindings) (t : Ty) : m.assign t t = .assigned m := by
  obtain ⟨n, hn⟩ := m.exists_assign_eq_step t t
  rw [hn, step, if_pos rfl]

theorem Wf.assign_eq_step (hm : m.Wf) (t u : Ty) : m.assign t u = step assign m t u := by
  obtain ⟨n, hn⟩ := m.exists_assign_eq_step t u
  rw [hn, (answers_assign n).step hm]
  rw [← hn]
  exact hm.assign_ne_exhausted t u

theorem Wf.assign_free_right (hm : m.Wf) (ht : t.isParam = false)
    (hp : m.find? (.param p) = none) (hmen : m.mentions (.param p) t = false) :
    m.assign t (.param p) = .assigned (m.insert (.param p) t) := by
  have hne := Ty.ne_param ht p
  simp [hm.assign_eq_step, step, slot, hne, hp, hmen]

theorem Wf.assign_bound_right (hm : m.Wf) (ht : t.isParam = false)
    (hs : m.find? (.param p) = some s) :
    m.assign t (.param p) = (m.assign t s).rebind (.param p) (t.mostGeneral s) := by
  have hne := Ty.ne_param ht p
  rw [hm.assign_eq_step]
  simp [step, slot, hne, hs]

theorem Wf.assign_free_left (hm : m.Wf) (hu : u.isParam = false)
    (hp : m.find? (.param p) = none) (hmen : m.mentions (.param p) u = false) :
    m.assign (.param p) u = .assigned (m.insert (.param p) u) := by
  have hne := (Ty.ne_param hu p).symm
  rw [hm.assign_eq_step, step, if_neg hne, slot_of_isParam_eq_false hu]
  simp [stepLeft, slot, hp, hmen]

theorem Wf.assign_bound_left (hm : m.Wf) (hu : u.isParam = false)
    (hs : m.find? (.param p) = some s) :
    m.assign (.param p) u = (m.assign s u).rebind (.param p) (s.mostGeneral u) := by
  have hne := (Ty.ne_param hu p).symm
  rw [hm.assign_eq_step, step, if_neg hne, slot_of_isParam_eq_false hu]
  simp [stepLeft, slot, hs]

theorem Wf.assignAll_eq_pairwise (hm : m.Wf) (ts us : List Ty) :
    m.assignAll ts us = pairwise assign m ts us :=
  ((answers_assign _).pairwise hm (hm.assignAll_ne_exhausted ts us)).symm

end Unbounded

end Bindings

end ExprTyping
