import ExprTyping.Proofs.Fitting

/-!
# The rules of assignability

`Assigns ok` goes through two lists of types as assignability does, and asks `ok` of every parameter
that is met and of what it is then to be bound to. With nothing asked this is assignability itself
(`assigns_iff`). An instantiation that may replace all these bindings makes the one type fit the
other (`Assigns.fits`), also the other way round where the left type is the wider one
(`Assigns.fits_of_wide`).
-/

namespace ExprTyping

namespace Ty

variable {t u : Ty} {θ : String → Ty}

/-- What fits `u` fits `t`, and what `u` fits, `t` does. -/
def Replaces (t u : Ty) : Prop :=
  ∀ v, (u.fits v = true → t.fits v = true) ∧ (v.fits u = true → v.fits t = true)

namespace Replaces

theorem refl (t : Ty) : Replaces t t := fun _ => ⟨id, id⟩

theorem fits (h : Replaces t u) : t.fits u = true := (h u).1 u.fits_refl

theorem fits_symm (h : Replaces t u) : u.fits t = true := (h u).2 u.fits_refl

theorem of_lessSpecific (ht : t.params = []) (h : t.lessSpecific u = true) : Replaces t u := by
  have hr := Relaxes.of_lessSpecific ht h
  exact fun v =>
    ⟨fun hv => fits_of_relaxes hv hr (.same v), fun hv => fits_of_relaxes hv (.same v) hr⟩

end Replaces

theorem fits_inst_of_admits (h : t.admits u = true) (θ : String → Ty) :
    (t.inst θ).fits (u.inst θ) = true := by
  by_cases hw : t.isWildcard = true ∨ u.isWildcard = true
  · exact Fits.fits (.wildcard (hw.imp (isWildcard_inst · θ) (isWildcard_inst · θ)))
  cases t with
  | null => exact Fits.fits (.null (isNullable_inst (by simp_all [admits]) θ))
  | _ => cases u <;> simp_all [admits, isWildcard, inst, fits]

theorem lessSpecific_of_param {p : String} (h : t.lessSpecific (.param p) = true) (u : Ty) :
    t.lessSpecific u = true := by
  cases t <;> simp_all [lessSpecific]

end Ty

namespace Bindings

variable {ok : String → Ty → Prop} {rec : Bindings → Ty → Ty → Outcome} {m m' : Bindings}
  {t u : Ty} {ts us : List Ty} {θ : String → Ty}

/-- The rules by which types are assigned to types side by side, with `ok` for the parameters that
are met. -/
inductive Assigns (ok : String → Ty → Prop) : Bindings → List Ty → List Ty → Bindings → Prop
  | nil {m : Bindings} : Assigns ok m [] [] m
  | cons {m m₁ m' : Bindings} {t u : Ty} {ts us : List Ty} : Assigns ok m [t] [u] m₁ →
      Assigns ok m₁ ts us m' → Assigns ok m (t :: ts) (u :: us) m'
  | same {m : Bindings} (t : Ty) : Assigns ok m [t] [t] m
  | followRight {m m₁ : Bindings} {t s : Ty} {p : String} : t ≠ .param p →
      m.find? (.param p) = some s → ok p (t.mostGeneral s) → Assigns ok m [t] [s] m₁ →
      Assigns ok m [t] [.param p] (m₁.rebind (.param p) (t.mostGeneral s))
  | bindRight {m : Bindings} {t : Ty} {p : String} : t ≠ .param p → m.find? (.param p) = none →
      m.mentions (.param p) t = false → ok p t →
      Assigns ok m [t] [.param p] (m.insert (.param p) t)
  | followLeft {m m₁ : Bindings} {u s : Ty} {p : String} : u ≠ .param p →
      m.Stuck u (.param p) → m.find? (.param p) = some s → ok p (s.mostGeneral u) →
      Assigns ok m [s] [u] m₁ →
      Assigns ok m [.param p] [u] (m₁.rebind (.param p) (s.mostGeneral u))
  | bindLeft {m : Bindings} {u : Ty} {p : String} : u ≠ .param p → m.Stuck u (.param p) →
      m.find? (.param p) = none → m.mentions (.param p) u = false → ok p u →
      Assigns ok m [.param p] [u] (m.insert (.param p) u)
  | accept {m : Bindings} {t u : Ty} : t ≠ u → m.Stuck t u → m.Stuck u t → ¬ t.SameHead u →
      t.admits u = true → Assigns ok m [t] [u] m
  | unwrap {m m' : Bindings} {p : Prim} {u : Ty} : .wrapper p ≠ u → m.Stuck u (.wrapper p) →
      u.isWildcard = false → Assigns ok m [.prim p] [u] m' → Assigns ok m [.wrapper p] [u] m'
  | parts {m m' : Bindings} {t u : Ty} : t ≠ u → t.SameHead u →
      Assigns ok m t.children u.children m' → Assigns ok m [t] [u] m'

section Complete

variable {A : Ty → Prop}

theorem assigns_pairwise
    (hrec : ∀ m t u m', m.Closed A → A t → A u → rec m t u = .assigned m' →
      Rewrites A m m' ∧ m.Assigns ok [t] [u] m')
    (hA : m.Closed A) (hts : ∀ t ∈ ts, A t) (hus : ∀ u ∈ us, A u)
    (h : pairwise rec m ts us = .assigned m') : m.Assigns ok ts us m' := by
  induction ts generalizing m us with
  | nil =>
    obtain ⟨rfl, rfl⟩ := pairwise_nil_eq_assigned h
    exact .nil
  | cons t ts ih =>
    obtain ⟨u, us, m₁, rfl, hr, h⟩ := pairwise_cons_eq_assigned h
    simp only [List.forall_mem_cons] at hts hus
    obtain ⟨hrw, hone⟩ := hrec m t u m₁ hA hts.1 hus.1 hr
    exact .cons hone (ih (hrw.closed hA) hts.2 hus.2 h)

theorem StepCase.assigns {o : Outcome} (hc : StepCase rec m t u o)
    (hrec : ∀ m t u m', m.Closed A → A t → A u → rec m t u = .assigned m' →
      Rewrites A m m' ∧ m.Assigns ok [t] [u] m')
    (hok : ∀ p s, A (.param p) → A s → ok p s) (hA : m.Closed A) (ht : A t) (hu : A u)
    (h : o = .assigned m') : m.Assigns ok [t] [u] m' := by
  cases hc with
  | same =>
    cases h
    exact .same t
  | followRight hne hs =>
    obtain ⟨m₁, h₁, rfl⟩ := Outcome.rebind_eq_assigned h
    have hsA := hA.bound _ _ hu hs
    exact .followRight hne hs (hok _ _ hu (mostGeneral_of_both ht hsA))
      (hrec _ _ _ _ hA ht hsA h₁).2
  | bindRight hne hs hmen =>
    cases h
    exact .bindRight hne hs hmen (hok _ _ hu ht)
  | followLeft hne hst hs =>
    obtain ⟨m₁, h₁, rfl⟩ := Outcome.rebind_eq_assigned h
    have hsA := hA.bound _ _ ht hs
    exact .followLeft hne hst hs (hok _ _ ht (mostGeneral_of_both hsA hu))
      (hrec _ _ _ _ hA hsA hu h₁).2
  | bindLeft hne hst hs hmen =>
    cases h
    exact .bindLeft hne hst hs hmen (hok _ _ ht hu)
  | shape hne hst hst' =>
    cases Ty.shapePair t u with
    | parts hs =>
      rw [stepShape_of_sameHead rec m hs] at h
      exact .parts hne hs (assigns_pairwise hrec hA
        (fun c hc => hA.child t c ht hs.inner?_eq_none hc)
        (fun c hc => hA.child u c hu hs.symm.inner?_eq_none hc) h)
    | wrapper p u =>
      rw [stepShape_wrapper] at h
      split at h
      · next hw =>
        cases h
        exact .accept hne hst hst' (by rintro ⟨⟩) (by simp [Ty.admits, hw])
      · next hw =>
        have hp := hA.child _ (.prim p) ht rfl (by simp [Ty.children])
        exact .unwrap hne hst' (by simpa using hw) (hrec _ _ _ _ hA hp hu h).2
    | other hs hw =>
      rw [stepShape_eq_accept rec m hs hw, accept] at h
      split at h
      · next ha =>
        cases h
        exact .accept hne hst hst' hs ha
      · cases h

/-- A run of assignability goes by the rules, and `ok` need only hold within a closed set of types
that has both types. -/
theorem assigns_assignIn {n : Nat} (hok : ∀ p s, A (.param p) → A s → ok p s) (hA : m.Closed A)
    (ht : A t) (hu : A u) (h : assignIn n m t u = .assigned m') : m.Assigns ok [t] [u] m' := by
  induction n generalizing m t u m' with
  | zero => cases h
  | succ n ih =>
    refine (step_case _ m t u).assigns (fun m t u m' hA ht hu h => ?_) hok hA ht hu h
    exact ⟨assignIn_rewrites hA ht hu h, ih hA ht hu h⟩

end Complete

section Sound

theorem step_of_stuck (hne : t ≠ u) (hu : m.Stuck u t) : step rec m t u = stepLeft rec m t u := by
  rcases hu with hu | ⟨p, rfl, hfree, hmen⟩
  · rw [step, if_neg hne, slot_of_isParam_eq_false hu]
  · simp [step, hne, slot, hfree, hmen]

theorem stepLeft_of_stuck (ht : m.Stuck t u) : stepLeft rec m t u = stepShape rec m t u := by
  rcases ht with ht | ⟨p, rfl, hfree, hmen⟩
  · rw [stepLeft, slot_of_isParam_eq_false ht]
  · simp [stepLeft, slot, hfree, hmen]

theorem Assigns.pairwise_eq (h : m.Assigns ok ts us m') (hm : m.Wf) :
    pairwise assign m ts us = .assigned m' ∧ m'.Wf := by
  have hwf : ∀ {m m' : Bindings} {t u : Ty}, m.Wf → m.assign t u = .assigned m' → m'.Wf :=
    fun hm h => hm.assign? (Outcome.toOption_eq_some.2 h)
  induction h with
  | nil => exact ⟨rfl, hm⟩
  | cons _ _ ih ih' =>
    obtain ⟨h, hm₁⟩ := ih hm
    obtain ⟨h', hm'⟩ := ih' hm₁
    rw [pairwise_singleton] at h
    simp only [pairwise, h]
    exact ⟨h', hm'⟩
  | same t =>
    rw [pairwise_singleton, assign_self]
    exact ⟨rfl, hm⟩
  | @followRight m m₁ t s p hne hs _ _ ih =>
    obtain ⟨h, -⟩ := ih hm
    have hstep : m.assign t (.param p) = .assigned (m₁.rebind (.param p) (t.mostGeneral s)) := by
      rw [pairwise_singleton] at h
      rw [hm.assign_eq_step]
      simp [step, hne, slot, hs, h, Outcome.rebind]
    rw [pairwise_singleton]
    exact ⟨hstep, hwf hm hstep⟩
  | @bindRight m t p hne hs hmen _ =>
    have hstep : m.assign t (.param p) = .assigned (m.insert (.param p) t) := by
      rw [hm.assign_eq_step]
      simp [step, hne, slot, hs, hmen]
    rw [pairwise_singleton]
    exact ⟨hstep, hwf hm hstep⟩
  | @followLeft m m₁ u s p hne hst hs _ _ ih =>
    obtain ⟨h, -⟩ := ih hm
    have hstep : m.assign (.param p) u = .assigned (m₁.rebind (.param p) (s.mostGeneral u)) := by
      rw [pairwise_singleton] at h
      rw [hm.assign_eq_step, step_of_stuck hne.symm hst]
      simp [stepLeft, slot, hs, h, Outcome.rebind]
    rw [pairwise_singleton]
    exact ⟨hstep, hwf hm hstep⟩
  | @bindLeft m u p hne hst hs hmen _ =>
    have hstep : m.assign (.param p) u = .assigned (m.insert (.param p) u) := by
      rw [hm.assign_eq_step, step_of_stuck hne.symm hst]
      simp [stepLeft, slot, hs, hmen]
    rw [pairwise_singleton]
    exact ⟨hstep, hwf hm hstep⟩
  | @accept m t u hne hst hst' hs ha =>
    rw [pairwise_singleton, hm.assign_eq_step, step_of_stuck hne hst', stepLeft_of_stuck hst]
    refine ⟨?_, hm⟩
    cases Ty.shapePair t u with
    | parts hs' => exact absurd hs' hs
    | wrapper p u =>
      rw [stepShape_wrapper, if_pos (by simpa [Ty.admits, Ty.isWildcard] using ha)]
    | other _ hw =>
      rw [stepShape_eq_accept _ _ hs hw, ha]
      rfl
  | @unwrap m m' p u hne hst hw _ ih =>
    obtain ⟨h, hm'⟩ := ih hm
    rw [pairwise_singleton] at h ⊢
    rw [hm.assign_eq_step, step_of_stuck hne hst, stepLeft_of_stuck (.inl rfl), stepShape_wrapper,
      if_neg (by simp [hw])]
    exact ⟨h, hm'⟩
  | @parts m m' t u hne hs _ ih =>
    rw [pairwise_singleton, hm.assign_eq_stepShape hne hs.isParam_eq_false
      hs.symm.isParam_eq_false, stepShape_of_sameHead _ _ hs]
    exact ih hm

theorem assigns_iff (hm : m.Wf) :
    m.Assigns (fun _ _ => True) ts us m' ↔ m.assignAll? ts us = some m' := by
  rw [assignAll?, Outcome.toOption_eq_some]
  constructor
  · intro h
    rw [hm.assignAll_eq_pairwise]
    exact (h.pairwise_eq hm).1
  · intro h
    refine assigns_pairwise (A := fun _ => True) (fun m t u m' hA ht hu h => ?_) (.all m)
      (fun _ _ => trivial) (fun _ _ => trivial) h
    exact ⟨assignIn_rewrites hA ht hu h,
      assigns_assignIn (fun _ _ _ _ => trivial) hA ht hu h⟩

end Sound

section Fits

variable (hok : ∀ p s, ok p s → (θ p).Replaces (s.inst θ))

include hok

theorem Assigns.fits (h : m.Assigns ok ts us m') :
    List.Forall₂ (fun t u => (t.inst θ).fits (u.inst θ) = true) ts us := by
  induction h with
  | nil => exact .nil
  | cons _ _ ih ih' => exact .cons (List.forall₂_cons.1 ih).1 ih'
  | same t => exact .cons (Ty.fits_refl _) .nil
  | followRight _ _ hg _ ih =>
    refine .cons ?_ .nil
    rw [Ty.mostGeneral] at hg
    split at hg
    · exact (hok _ _ hg).fits_symm
    · exact (hok _ _ hg _).2 (List.forall₂_cons.1 ih).1
  | bindRight _ _ _ ht => exact .cons (hok _ _ ht).fits_symm .nil
  | followLeft _ _ _ hg _ ih =>
    refine .cons ?_ .nil
    rw [Ty.mostGeneral] at hg
    split at hg
    · exact (hok _ _ hg _).1 (List.forall₂_cons.1 ih).1
    · exact (hok _ _ hg).fits
  | bindLeft _ _ _ _ hu => exact .cons (hok _ _ hu).fits .nil
  | accept _ _ _ _ ha => exact .cons (Ty.fits_inst_of_admits ha θ) .nil
  | @unwrap m m' p u _ _ _ _ ih =>
    exact .cons ((Ty.fits_wrapper p (u.inst θ)).trans (List.forall₂_cons.1 ih).1) .nil
  | parts _ hs _ ih =>
    refine .cons ?_ .nil
    rwa [(hs.inst_both θ).fits_iff, Ty.children_inst hs.isParam_eq_false,
      Ty.children_inst hs.symm.isParam_eq_false, List.forall₂_map_left_iff,
      List.forall₂_map_right_iff]

/-- Where the left type is the wider one, the right one fits it as well: at each parameter on the
left, what it is to be bound to is wide enough for the other side. -/
theorem Assigns.fits_of_wide (h : m.Assigns ok ts us m') :
    List.Forall₂ (fun t u => t.lessSpecific u = true → (u.inst θ).fits (t.inst θ) = true)
      ts us := by
  induction h with
  | nil => exact .nil
  | cons _ _ ih ih' => exact .cons (List.forall₂_cons.1 ih).1 ih'
  | same t => exact .cons (fun _ => Ty.fits_refl _) .nil
  | @followRight m m₁ t s p _ _ hg =>
    refine .cons (fun hwide => ?_) .nil
    rw [Ty.mostGeneral, if_pos (Ty.lessSpecific_of_param hwide s)] at hg
    exact (hok _ _ hg).fits
  | bindRight _ _ _ ht => exact .cons (fun _ => (hok _ _ ht).fits) .nil
  | @followLeft m m₁ u s p _ _ _ hg _ ih =>
    refine .cons (fun _ => ?_) .nil
    rw [Ty.mostGeneral] at hg
    split at hg
    · next hsu => exact (hok _ _ hg _).2 ((List.forall₂_cons.1 ih).1 hsu)
    · exact (hok _ _ hg).fits_symm
  | bindLeft _ _ _ _ hu => exact .cons (fun _ => (hok _ _ hu).fits_symm) .nil
  | @accept m t u hne _ _ hs ha =>
    refine .cons (fun hwide => ?_) .nil
    cases Ty.wider_of_lessSpecific hwide with
    | dyn => exact Ty.Fits.fits (.wildcard (.inr rfl))
    | param =>
      have hu : u.isWildcard = true := by simpa [Ty.admits, Ty.isWildcard] using ha
      exact Ty.Fits.fits (.wildcard (.inl (Ty.isWildcard_inst hu θ)))
    | same => exact Ty.fits_refl _
    | parts hs' => exact absurd hs' hs
  | @unwrap m m' p u hne =>
    refine .cons (fun hwide => ?_) .nil
    cases Ty.wider_of_lessSpecific hwide with
    | same => exact Ty.fits_refl _
    | parts hs => cases hs
  | @parts m m' t u _ hs _ ih =>
    refine .cons (fun hwide => ?_) .nil
    rw [(hs.symm.inst_both θ).fits_iff, Ty.children_inst hs.isParam_eq_false,
      Ty.children_inst hs.symm.isParam_eq_false, List.forall₂_map_left_iff,
      List.forall₂_map_right_iff]
    exact .flip (.mp (fun _ _ h hw => h hw) ih (hs.lessSpecific_iff.1 hwide))

end Fits

/-- What the bindings make of the parameter may replace what they make of the type. -/
def Keeps (m : Bindings) (p : String) (t : Ty) : Prop :=
  (m.subst true (.param p)).Replaces (m.subst true t)

theorem Keeps.replaces {p : String} (h : m.Keeps p t) (hk : m.ParamKeys) :
    (m.solution true p).Replaces (t.inst (m.solution true)) := by
  rwa [Keeps, hk.subst_eq_inst true t] at h

theorem keeps_of_lessSpecific {p : String} (hk : m.ParamKeys)
    (h : (m.subst true (.param p)).lessSpecific (m.subst true t) = true) : m.Keeps p t :=
  .of_lessSpecific (hk.params_subst _) h

theorem isSome_assign?_subst (hm : m.Wf) :
    (Bindings.assign? {} (m.subst true t) (m.subst true u)).isSome =
      (t.inst (m.solution true)).fits (u.inst (m.solution true)) := by
  rw [Wf.empty.isSome_assign? (hm.keys.params_subst t) (hm.keys.params_subst u),
    hm.keys.subst_eq_inst, hm.keys.subst_eq_inst]

theorem ParamKeys.assigns_of_closed (hk : m.ParamKeys) (ht : t.params = []) (hu : u.params = [])
    (h : m.assign? t u = some m') : m.Assigns ok [t] [u] m' := by
  refine assigns_assignIn (A := fun t => t.params = []) ?_ ?_ ht hu
    (Outcome.toOption_eq_some.1 h)
  · exact fun p s hp => by cases hp
  · constructor
    · exact fun t c ht _ hc => Ty.params_of_mem_children ht hc
    · intro t u ht hu
      obtain ⟨p, rfl⟩ := hk t u hu
      cases ht

end Bindings

end ExprTyping
