import ExprTyping.Proofs.Shapes
import ExprTyping.Proofs.Substitution

/-!
# What assignability does to bindings

`StepCase` lists what one step of assignability can do and when. From it follows what any run does
to the bindings: it only binds parameters, each time after an occurs check, and both the parameter
and its new binding are below the two types of the run (`Rewrites`). So the bindings stay well
formed, no binding is lost, and nothing out of reach of the two types changes.
-/

namespace ExprTyping.Bindings

variable {rec : Bindings → Ty → Ty → Outcome} {m m' : Bindings} {p : String} {s t u : Ty}

/-- `t` is no parameter, or a free one that `u` mentions: no rule for parameters replaces it. -/
def Stuck (m : Bindings) (t u : Ty) : Prop :=
  t.isParam = false ∨ ∃ p, t = .param p ∧ m.find? t = none ∧ m.mentions t u = true

inductive StepCase (rec : Bindings → Ty → Ty → Outcome) (m : Bindings) : Ty → Ty → Outcome → Prop
  | same (t : Ty) : StepCase rec m t t (.assigned m)
  | followRight {t s : Ty} {p : String} : t ≠ .param p → m.find? (.param p) = some s →
      StepCase rec m t (.param p) ((rec m t s).rebind (.param p) (t.mostGeneral s))
  | bindRight {t : Ty} {p : String} : t ≠ .param p → m.find? (.param p) = none →
      m.mentions (.param p) t = false →
      StepCase rec m t (.param p) (.assigned (m.insert (.param p) t))
  | followLeft {u s : Ty} {p : String} : u ≠ .param p → m.Stuck u (.param p) →
      m.find? (.param p) = some s →
      StepCase rec m (.param p) u ((rec m s u).rebind (.param p) (s.mostGeneral u))
  | bindLeft {u : Ty} {p : String} : u ≠ .param p → m.Stuck u (.param p) →
      m.find? (.param p) = none → m.mentions (.param p) u = false →
      StepCase rec m (.param p) u (.assigned (m.insert (.param p) u))
  | shape {t u : Ty} : t ≠ u → m.Stuck t u → m.Stuck u t → StepCase rec m t u (stepShape rec m t u)

theorem slot_of_isParam_eq_false (h : t.isParam = false) : m.slot t = .fixed := by
  cases t <;> simp_all [slot, Ty.isParam]

theorem stepLeft_case (hne : t ≠ u) (hu : m.Stuck u t) :
    StepCase rec m t u (stepLeft rec m t u) := by
  by_cases ht : t.isParam = true
  · obtain ⟨p, rfl⟩ := Ty.isParam_iff.1 ht
    cases hs : m.find? (.param p) with
    | some s =>
      simp only [stepLeft, slot, hs]
      exact .followLeft hne.symm hu hs
    | none =>
      simp only [stepLeft, slot, hs]
      cases hmen : m.mentions (.param p) u with
      | true => exact .shape hne (.inr ⟨p, rfl, hs, hmen⟩) hu
      | false => exact .bindLeft hne.symm hu hs hmen
  · rw [Bool.not_eq_true] at ht
    rw [stepLeft, slot_of_isParam_eq_false ht]
    exact .shape hne (.inl ht) hu

theorem step_case (rec : Bindings → Ty → Ty → Outcome) (m : Bindings) (t u : Ty) :
    StepCase rec m t u (step rec m t u) := by
  by_cases hne : t = u
  · subst hne
    simp only [step]
    exact .same t
  by_cases hu : u.isParam = true
  · obtain ⟨p, rfl⟩ := Ty.isParam_iff.1 hu
    cases hs : m.find? (.param p) with
    | some s =>
      simp only [step, hne, slot, hs]
      exact .followRight hne hs
    | none =>
      simp only [step, hne, slot, hs]
      cases hmen : m.mentions (.param p) t with
      | true => exact stepLeft_case hne (.inr ⟨p, rfl, hs, hmen⟩)
      | false => exact .bindRight hne hs hmen
  · rw [Bool.not_eq_true] at hu
    simp only [step, hne, slot_of_isParam_eq_false hu]
    exact stepLeft_case hne (.inl hu)

theorem pairwise_nil_eq_assigned {us : List Ty} (h : pairwise rec m [] us = .assigned m') :
    us = [] ∧ m' = m := by
  cases us with
  | nil =>
    cases h
    exact ⟨rfl, rfl⟩
  | cons u us => cases h

theorem pairwise_cons_eq_assigned {ts us : List Ty}
    (h : pairwise rec m (t :: ts) us = .assigned m') :
    ∃ u us' m₁, us = u :: us' ∧ rec m t u = .assigned m₁ ∧
      pairwise rec m₁ ts us' = .assigned m' := by
  cases us with
  | nil => cases h
  | cons u us =>
    simp only [pairwise] at h
    cases hr : rec m t u with
    | assigned m₁ => exact ⟨u, us, m₁, rfl, hr, by simpa [hr] using h⟩
    | refused => simp [hr] at h
    | exhausted => simp [hr] at h

inductive ShapeCase (rec : Bindings → Ty → Ty → Outcome) (m : Bindings) (t u : Ty) : Outcome → Prop
  | accept : ShapeCase rec m t u (.assigned m)
  | refuse : ShapeCase rec m t u .refused
  | unwrap {c : Ty} : t.inner? = none → c ∈ t.children → ShapeCase rec m t u (rec m c u)
  | parts {ts us : List Ty} : t.inner? = none → u.inner? = none → (∀ c ∈ ts, c ∈ t.children) →
      (∀ c ∈ us, c ∈ u.children) → ShapeCase rec m t u (pairwise rec m ts us)

theorem stepShape_case (rec : Bindings → Ty → Ty → Outcome) (m : Bindings) (t u : Ty) :
    ShapeCase rec m t u (stepShape rec m t u) := by
  cases Ty.shapePair t u with
  | parts hs =>
    rw [stepShape_of_sameHead rec m hs]
    exact .parts hs.inner?_eq_none hs.symm.inner?_eq_none (fun _ h => h) (fun _ h => h)
  | wrapper p u =>
    rw [stepShape_wrapper]
    split
    · exact .accept
    · exact .unwrap rfl (by simp [Ty.children])
  | other hs hw =>
    rw [stepShape_eq_accept rec m hs hw]
    cases t.admits u with
    | true => exact .accept
    | false => exact .refuse

section Rewrites

variable {A : Ty → Prop}

/-- `A` holds of all that is one step below the types it holds of. Assignability never looks into a
type value, so nothing is asked there. -/
structure Closed (m : Bindings) (A : Ty → Prop) : Prop where
  child : ∀ t c, A t → t.inner? = none → c ∈ t.children → A c
  bound : ∀ t u, A t → m.find? t = some u → A u

/-- The bindings arise by binding parameters of `A` to types of `A`, each after an occurs check. -/
inductive Rewrites (A : Ty → Prop) (m : Bindings) : Bindings → Prop
  | refl : Rewrites A m m
  | bind {m' : Bindings} {p : String} {t : Ty} : Rewrites A m m' → A (.param p) → A t →
      m'.mentions (.param p) t = false → Rewrites A m (m'.insert (.param p) t)

theorem Closed.insert (hA : m.Closed A) (ht : A t) : Closed (m.insert (.param p) t) A where
  child := hA.child
  bound x y hx hxy := by
    by_cases hp : .param p = x
    · rw [← hp, Table.find?_insert_self, Option.some_inj] at hxy
      exact hxy ▸ ht
    · rw [Table.find?_insert_of_ne _ _ hp] at hxy
      exact hA.bound x y hx hxy

namespace Rewrites

theorem trans {m'' : Bindings} (h : Rewrites A m m') (h' : Rewrites A m' m'') :
    Rewrites A m m'' := by
  induction h' with
  | refl => exact h
  | bind _ hp ht hmen ih => exact .bind ih hp ht hmen

theorem mono {B : Ty → Prop} (hAB : ∀ t, A t → B t) (h : Rewrites A m m') : Rewrites B m m' := by
  induction h with
  | refl => exact .refl
  | bind _ hp ht hmen ih => exact .bind ih (hAB _ hp) (hAB _ ht) hmen

theorem closed (h : Rewrites A m m') (hA : m.Closed A) : m'.Closed A := by
  induction h with
  | refl => exact hA
  | bind _ _ ht _ ih => exact ih.insert ht

/-- Nothing leads out of the set within which the bindings were rewritten. -/
theorem of_below (h : Rewrites A m m') (hchild : ∀ t, A t → ∀ c ∈ t.children, A c)
    (hbound : ∀ t u, A t → m.find? t = some u → A u) (ht : A t) (hb : m'.Below t u) : A u := by
  have hA := h.closed ⟨fun t c ht _ hc => hchild t ht c hc, hbound⟩
  induction hb with
  | refl => exact ht
  | tail _ hstep ih =>
    rcases hstep with hc | hs
    · exact hchild _ ih _ hc
    · exact hA.bound _ _ ih hs

theorem wf (h : Rewrites A m m') (hm : m.Wf) : m'.Wf := by
  induction h with
  | refl => exact hm
  | bind _ _ _ hmen ih => exact ih.insert (ih.mentions_eq_false_iff.1 hmen)

theorem find?_cases (h : Rewrites A m m') (hs : m'.find? s = some t) :
    m.find? s = some t ∨ A s ∧ A t := by
  induction h with
  | refl => exact .inl hs
  | @bind m' p u _ hp hu _ ih =>
    by_cases hps : .param p = s
    · rw [← hps, Table.find?_insert_self, Option.some_inj] at hs
      exact .inr ⟨hps ▸ hp, hs ▸ hu⟩
    · rw [Table.find?_insert_of_ne _ _ hps] at hs
      exact ih hs

theorem find?_eq (h : Rewrites A m m') (hs : ¬ A s) : m'.find? s = m.find? s := by
  induction h with
  | refl => rfl
  | @bind m' p u _ hp _ _ ih =>
    have hne : Ty.param p ≠ s := fun heq => hs (heq ▸ hp)
    rw [Table.find?_insert_of_ne _ _ hne, ih]

theorem isSome_find? (h : Rewrites A m m') (hs : (m.find? s).isSome) : (m'.find? s).isSome := by
  induction h with
  | refl => exact hs
  | @bind m' p t _ _ _ _ ih =>
    rw [Table.find?_insert]
    split
    · rfl
    · exact ih

end Rewrites

theorem pairwise_rewrites (hrec : ∀ m t u m', m.Closed A → A t → A u → rec m t u = .assigned m' →
      Rewrites A m m') {ts us : List Ty} (hA : m.Closed A) (hts : ∀ t ∈ ts, A t)
    (hus : ∀ u ∈ us, A u) (h : pairwise rec m ts us = .assigned m') : Rewrites A m m' := by
  induction ts generalizing m us with
  | nil =>
    obtain ⟨-, rfl⟩ := pairwise_nil_eq_assigned h
    exact .refl
  | cons t ts ih =>
    obtain ⟨u, us, m₁, rfl, hr, h⟩ := pairwise_cons_eq_assigned h
    simp only [List.forall_mem_cons] at hts hus
    have h₁ := hrec m t u m₁ hA hts.1 hus.1 hr
    exact h₁.trans (ih (h₁.closed hA) hts.2 hus.2 h)

theorem Outcome.rebind_eq_assigned {o : Outcome} (h : o.rebind s t = .assigned m') :
    ∃ m, o = .assigned m ∧ m' = m.rebind s t := by
  cases o with
  | assigned m =>
    cases h
    exact ⟨m, rfl, rfl⟩
  | refused => cases h
  | exhausted => cases h

theorem Rewrites.rebind (h : Rewrites A m m') (hp : A (.param p)) (ht : A t) :
    Rewrites A m (m'.rebind (.param p) t) := by
  rw [Bindings.rebind]
  split
  · exact h
  · next hmen => exact .bind h hp ht (by simpa using hmen)

theorem mostGeneral_of_both (ht : A t) (hu : A u) : A (t.mostGeneral u) := by
  rw [Ty.mostGeneral]
  split
  · exact ht
  · exact hu

theorem ShapeCase.rewrites {o : Outcome} (hc : ShapeCase rec m t u o)
    (hrec : ∀ m t u m', m.Closed A → A t → A u → rec m t u = .assigned m' → Rewrites A m m')
    (hA : m.Closed A) (ht : A t) (hu : A u) (h : o = .assigned m') : Rewrites A m m' := by
  cases hc with
  | accept =>
    cases h
    exact .refl
  | refuse => cases h
  | unwrap hi hc => exact hrec m _ u m' hA (hA.child t _ ht hi hc) hu h
  | parts hti hui hts hus =>
    exact pairwise_rewrites hrec hA (fun c hc => hA.child t c ht hti (hts c hc))
      (fun c hc => hA.child u c hu hui (hus c hc)) h

theorem StepCase.rewrites {o : Outcome} (hc : StepCase rec m t u o)
    (hrec : ∀ m t u m', m.Closed A → A t → A u → rec m t u = .assigned m' → Rewrites A m m')
    (hA : m.Closed A) (ht : A t) (hu : A u) (h : o = .assigned m') : Rewrites A m m' := by
  cases hc with
  | same =>
    cases h
    exact .refl
  | followRight hne hs =>
    obtain ⟨m₁, h₁, rfl⟩ := Outcome.rebind_eq_assigned h
    have hsA := hA.bound _ _ hu hs
    exact (hrec m _ _ m₁ hA ht hsA h₁).rebind hu (mostGeneral_of_both ht hsA)
  | bindRight _ _ hmen =>
    cases h
    exact .bind .refl hu ht hmen
  | followLeft _ _ hs =>
    obtain ⟨m₁, h₁, rfl⟩ := Outcome.rebind_eq_assigned h
    have hsA := hA.bound _ _ ht hs
    exact (hrec m _ _ m₁ hA hsA hu h₁).rebind ht (mostGeneral_of_both hsA hu)
  | bindLeft _ _ _ hmen =>
    cases h
    exact .bind .refl ht hu hmen
  | shape => exact (stepShape_case rec m t u).rewrites hrec hA ht hu h

theorem assignIn_rewrites {n : Nat} (hA : m.Closed A) (ht : A t) (hu : A u)
    (h : assignIn n m t u = .assigned m') : Rewrites A m m' := by
  induction n generalizing m t u m' with
  | zero => cases h
  | succ n ih => exact (step_case _ m t u).rewrites (fun _ _ _ _ => ih) hA ht hu h

theorem Outcome.toOption_eq_some {o : Outcome} : o.toOption = some m ↔ o = .assigned m := by
  cases o <;> simp [toOption]

theorem assign?_rewrites (hA : m.Closed A) (ht : A t) (hu : A u) (h : m.assign? t u = some m') :
    Rewrites A m m' :=
  assignIn_rewrites hA ht hu (Outcome.toOption_eq_some.1 h)

theorem assignAll?_rewrites {ts us : List Ty} (hA : m.Closed A) (hts : ∀ t ∈ ts, A t)
    (hus : ∀ u ∈ us, A u) (h : m.assignAll? ts us = some m') : Rewrites A m m' :=
  pairwise_rewrites (fun _ _ _ _ => assignIn_rewrites) hA hts hus (Outcome.toOption_eq_some.1 h)

theorem Closed.all (m : Bindings) : m.Closed fun _ => True :=
  ⟨fun _ _ _ _ _ => trivial, fun _ _ _ _ => trivial⟩

theorem Wf.assign? (hm : m.Wf) (h : m.assign? t u = some m') : m'.Wf :=
  (assign?_rewrites (.all m) trivial trivial h).wf hm

theorem Wf.assignAll? {ts us : List Ty} (hm : m.Wf) (h : m.assignAll? ts us = some m') : m'.Wf :=
  (assignAll?_rewrites (.all m) (fun _ _ => trivial) (fun _ _ => trivial) h).wf hm

theorem Rewrites.keeps (h : Rewrites A m m') (hk : m.ParamKeys) (ha : m.Acyclic) :
    m'.ParamKeys ∧ (∀ p, (m.find? (.param p)).isSome → (m'.find? (.param p)).isSome) ∧
      m'.Acyclic := by
  have hwf := h.wf ⟨hk, ha⟩
  exact ⟨hwf.keys, fun p => h.isSome_find?, hwf.acyclic⟩

/-- Whatever two types or lists of types are assigned, still only parameters are bound, those that
were bound still are, and no chain of bindings leads from a parameter back to itself. -/
theorem acyclic_of_assign? {m : Bindings} (hk : m.ParamKeys) (ha : m.Acyclic) :
    (∀ t u m', m.assign? t u = some m' →
      m'.ParamKeys ∧ (∀ p, (m.find? (.param p)).isSome → (m'.find? (.param p)).isSome) ∧
        m'.Acyclic) ∧
    ∀ ts us m', m.assignAll? ts us = some m' →
      m'.ParamKeys ∧ (∀ p, (m.find? (.param p)).isSome → (m'.find? (.param p)).isSome) ∧
        m'.Acyclic := by
  constructor
  · intro t u m' h
    exact (assign?_rewrites (.all m) trivial trivial h).keeps hk ha
  · intro ts us m' h
    exact (assignAll?_rewrites (.all m) (fun _ _ => trivial) (fun _ _ => trivial) h).keeps hk ha

theorem acyclic_of_assign?_list_self :
    let m : Bindings := Table.insert {} (.param "P") (.list .dyn)
    ∃ m', m.assign? (.list (.param "P")) (.param "P") = some m' ∧
      m'.find? (.param "P") = some .dyn ∧ m'.ParamKeys ∧ m'.Acyclic := by
  intro m
  have hm : m.Wf := Wf.empty.insert (Wf.empty.mentions_eq_false_iff.1 (by decide))
  have hassign : m.assign? (.list (.param "P")) (.param "P") =
      some (Table.insert {} (.param "P") .dyn) := rfl
  obtain ⟨hk, -, ha⟩ := (acyclic_of_assign? hm.keys hm.acyclic).1 _ _ _ hassign
  exact ⟨_, hassign, rfl, hk, ha⟩

end Rewrites

end ExprTyping.Bindings
