import ExprTyping.Proofs.Unifier

namespace ExprTyping.Bindings

variable {rec : Bindings → Ty → Ty → Outcome} {m m' : Bindings} {n : Nat} {p x : String}
  {s t u : Ty} {σ : String → Ty}

section Neutral

theorem stepShape_of_inst_eq (rec : Bindings → Ty → Ty → Outcome) (m : Bindings) (hne : t ≠ u)
    (ht : t.isParam = false) (hu : u.isParam = false) (h : t.inst σ = u.inst σ) :
    stepShape rec m t u = .assigned m ∨
      stepShape rec m t u = pairwise rec m t.children u.children := by
  rcases Ty.sameHead_of_inst_eq hne ht hu h with hs | ⟨v, w, rfl, rfl⟩
  · exact .inr (stepShape_of_sameHead rec m hs)
  · exact .inl rfl

theorem pairwise_neutral {ts us : List Ty} (hm : m.Wf)
    (hwf : ∀ m t u m', m.Wf → rec m t u = .assigned m' → m'.Wf)
    (hrec : ∀ m t u m', m.Wf → (∀ σ, Models σ m → t.inst σ = u.inst σ) →
      rec m t u = .assigned m' → ∀ σ, Models σ m' ↔ Models σ m)
    (heq : ∀ σ, Models σ m → ts.map (Ty.inst σ) = us.map (Ty.inst σ))
    (h : pairwise rec m ts us = .assigned m') : ∀ σ, Models σ m' ↔ Models σ m := by
  induction ts generalizing m us with
  | nil =>
    obtain ⟨-, rfl⟩ := pairwise_nil_eq_assigned h
    exact fun σ => Iff.rfl
  | cons t ts ih =>
    obtain ⟨u, us, m₁, rfl, hr, h⟩ := pairwise_cons_eq_assigned h
    have hhead := hrec m t u m₁ hm (fun σ hσ => (List.cons.inj (heq σ hσ)).1) hr
    have htail : ∀ σ, Models σ m₁ → ts.map (Ty.inst σ) = us.map (Ty.inst σ) :=
      fun σ hσ => (List.cons.inj (heq σ ((hhead σ).1 hσ))).2
    exact fun σ => (ih (hwf m t u m₁ hm hr) htail h σ).trans (hhead σ)

theorem Wf.not_forall_models_eq (hm : m.Wf) (hp : m.find? (.param p) = none)
    (ht : m.mentions (.param p) t = false) : ¬ ∀ σ, Models σ m → t.inst σ = σ p := by
  intro h
  have hsub : m.subst false t = .param p := by
    rw [hm.keys.subst_eq_inst, h _ hm.models_solution]
    exact hm.keys.subst_free hp
  refine hm.mentions_eq_false_iff.1 ht (hm.mem_params_subst p ?_).1
  rw [hsub]
  exact List.mem_singleton_self p

theorem models_rebind_of_eq {g : Ty} {m₁ : Bindings} (hm : m.Wf)
    (hs : m.find? (.param p) = some s) (hrw : Rewrites (fun _ => True) m m₁)
    (hmod : ∀ σ, Models σ m₁ ↔ Models σ m) (hg : ∀ σ, Models σ m → g.inst σ = s.inst σ)
    (σ : String → Ty) : Models σ (m₁.rebind (.param p) g) ↔ Models σ m := by
  have heq : ∀ τ, Models τ m₁ → τ p = g.inst τ := by
    intro τ hτ
    have hτ := (hmod τ).1 hτ
    rw [hg τ hτ, hτ p s hs]
  rw [(hrw.wf hm).models_rebind (hrw.isSome_find? (by simp [hs])) heq, hmod]

theorem StepCase.neutral {o : Outcome} (hc : StepCase rec m t u o) (hm : m.Wf)
    (hrw : ∀ m t u m', rec m t u = .assigned m' → Rewrites (fun _ => True) m m')
    (hrec : ∀ m t u m', m.Wf → (∀ σ, Models σ m → t.inst σ = u.inst σ) →
      rec m t u = .assigned m' → ∀ σ, Models σ m' ↔ Models σ m)
    (heq : ∀ σ, Models σ m → t.inst σ = u.inst σ) (h : o = .assigned m') :
    ∀ σ, Models σ m' ↔ Models σ m := by
  cases hc with
  | same =>
    cases h
    exact fun σ => Iff.rfl
  | @followRight t s p _ hs =>
    obtain ⟨m₁, h₁, rfl⟩ := Outcome.rebind_eq_assigned h
    have hts : ∀ σ, Models σ m → t.inst σ = s.inst σ :=
      fun σ hσ => (heq σ hσ).trans (hσ p s hs)
    refine models_rebind_of_eq hm hs (hrw m t s m₁ h₁) (hrec m t s m₁ hm hts h₁) fun σ hσ => ?_
    rw [inst_mostGeneral (hts σ hσ), hts σ hσ]
  | bindRight _ hfree hmen => exact absurd heq (hm.not_forall_models_eq hfree hmen)
  | @followLeft u s p _ _ hs =>
    obtain ⟨m₁, h₁, rfl⟩ := Outcome.rebind_eq_assigned h
    have hsu : ∀ σ, Models σ m → s.inst σ = u.inst σ :=
      fun σ hσ => (hσ p s hs).symm.trans (heq σ hσ)
    exact models_rebind_of_eq hm hs (hrw m s u m₁ h₁) (hrec m s u m₁ hm hsu h₁) fun σ hσ =>
      inst_mostGeneral (hsu σ hσ)
  | bindLeft _ _ hfree hmen =>
    exact absurd (fun σ hσ => (heq σ hσ).symm) (hm.not_forall_models_eq hfree hmen)
  | shape hne hst hst' =>
    -- the solution of the bindings makes the two equal, so neither is a parameter
    have hsol := heq _ hm.models_solution
    have htp := hst.isParam_eq_false hm hm.models_solution hne hst' hsol
    have hup := hst'.isParam_eq_false hm hm.models_solution hne.symm hst hsol.symm
    rcases stepShape_of_inst_eq rec m hne htp hup hsol with hr | hr
    · rw [hr] at h
      cases h
      exact fun σ => Iff.rfl
    · refine pairwise_neutral hm (fun m t u m' hm h => (hrw m t u m' h).wf hm) hrec ?_ (hr ▸ h)
      intro σ hσ
      rw [← Ty.children_inst htp, ← Ty.children_inst hup, heq σ hσ]

theorem assignIn_neutral (hm : m.Wf) (heq : ∀ σ, Models σ m → t.inst σ = u.inst σ)
    (h : assignIn n m t u = .assigned m') : ∀ σ, Models σ m' ↔ Models σ m := by
  induction n generalizing m t u m' with
  | zero => cases h
  | succ n ih =>
    exact (step_case _ m t u).neutral hm
      (fun m t u m' => assignIn_rewrites (.all m) trivial trivial) (fun m t u m' => ih) heq h

theorem assign?_neutral (hm : m.Wf) (heq : ∀ σ, Models σ m → t.inst σ = u.inst σ)
    (h : m.assign? t u = some m') : ∀ σ, Models σ m' ↔ Models σ m :=
  assignIn_neutral hm heq (Outcome.toOption_eq_some.1 h)

end Neutral

section Avoids

theorem closed_not_below (m : Bindings) (x : String) :
    m.Closed fun t => ¬ m.Below t (.param x) where
  child _ _ ht _ hc hb := ht (.trans (.child hc) hb)
  bound _ _ ht hu hb := ht (.trans (.bound hu) hb)

theorem Rewrites.avoids (h : Rewrites (fun t => ¬ m.Below t (.param x)) m m') :
    m'.find? (.param x) = m.find? (.param x) ∧
      ∀ v, ¬ m.Below v (.param x) → ¬ m'.Below v (.param x) := by
  refine ⟨h.find?_eq fun hx => hx (.refl m _), fun v hv hb => ?_⟩
  refine h.of_below (fun t ht c hc hb => ht (.trans (.child hc) hb))
    (fun t u ht hu hb => ht (.trans (.bound hu) hb)) hv hb (.refl m _)

end Avoids

section Wide

theorem find?_rebind_of_ne {q : String} (hne : q ≠ p) :
    (m.rebind (.param p) t).find? (.param q) = m.find? (.param q) := by
  rw [rebind]
  split
  · rfl
  · rw [Table.find?_insert_of_ne _ _ fun h => hne (Ty.param.inj h).symm]

/-- A parameter on the left keeps its binding `s` if `s` is wider than whatever it is compared
with: than all types, or than `u` if the comparison does not follow `u` first. -/
theorem assignIn_wide (hs : m.find? (.param x) = some s) (hu : ¬ m.Below u (.param x))
    (hwide : (∀ v, s.lessSpecific v = true) ∨ u.isParam = false ∧ s.lessSpecific u = true)
    (h : assignIn n m (.param x) u = .assigned m') (hm : m.Wf) :
    m'.find? (.param x) = some s := by
  induction n generalizing u m' with
  | zero => cases h
  | succ n ih =>
    have hc := step_case (assignIn n) m (.param x) u
    rw [assignIn] at h
    generalize step (assignIn n) m (.param x) u = o at hc h
    cases hc with
    | same => exact absurd (.refl m _) hu
    | @followRight _ v p hne hv =>
      obtain ⟨m₁, h₁, rfl⟩ := Outcome.rebind_eq_assigned h
      have hx₁ := ih (fun hb => hu (.trans (.bound hv) hb))
        (.inl (hwide.resolve_right fun h => Bool.noConfusion h.1)) h₁
      rwa [find?_rebind_of_ne fun h => hne (congrArg Ty.param h)]
    | bindRight hne _ _ =>
      cases h
      rwa [Table.find?_insert_of_ne _ _ hne.symm]
    | @followLeft _ v _ _ _ hv =>
      rw [hs, Option.some_inj] at hv
      subst hv
      obtain ⟨m₁, h₁, rfl⟩ := Outcome.rebind_eq_assigned h
      have hle : s.lessSpecific u = true := hwide.elim (fun h => h u) fun h => h.2
      have hkept := (assignIn_rewrites (closed_not_below m x) (hm.not_below hs) hu h₁).avoids.1
      rw [Ty.mostGeneral, if_pos hle, rebind]
      split
      · rw [hkept, hs]
      · exact Table.find?_insert_self _ _ _
    | bindLeft _ _ hfree _ => simp [hs] at hfree
    | shape _ hst _ =>
      rcases hst with h | ⟨p, heq, hfree, -⟩
      · cases h
      · simp [hs] at hfree

end Wide

section Fresh

variable {q y : String}

theorem Stuck.below (hm : m.Wf) (h : m.Stuck (.param q) t) : m.Below t (.param q) := by
  rcases h with h | ⟨p, hp, -, hmen⟩
  · cases h
  · cases hp
    exact hm.mentions_iff.1 hmen

theorem assignIn_fresh (hm : m.Wf) (hq : m.find? (.param q) = none)
    (ht : ¬ m.Below t (.param q)) (h : assignIn n m t (.param q) = .assigned m') :
    m' = m.insert (.param q) t := by
  cases n with
  | zero => cases h
  | succ n =>
    have hc := step_case (assignIn n) m t (.param q)
    rw [assignIn] at h
    generalize step (assignIn n) m t (.param q) = o at hc h
    cases hc with
    | same => exact absurd (.refl m _) ht
    | followRight _ hs => simp [hq] at hs
    | bindRight =>
      cases h
      rfl
    | followLeft _ hst _ => exact absurd (hst.below hm) ht
    | bindLeft _ hst _ _ => exact absurd (hst.below hm) ht
    | shape _ _ hst => exact absurd (hst.below hm) ht

theorem assignIn_bound (hq : m.find? (.param q) = some s) (ht : t ≠ .param q)
    (h : assignIn n m t (.param q) = .assigned m') : ∃ k m₁, assignIn k m t s = .assigned m₁ ∧
      m' = m₁.rebind (.param q) (t.mostGeneral s) := by
  have hstuck : ∀ {u}, ¬ m.Stuck (.param q) u := by
    rintro u (hp | ⟨p, -, hfree, -⟩)
    · cases hp
    · simp [hq] at hfree
  cases n with
  | zero => cases h
  | succ n =>
    have hc := step_case (assignIn n) m t (.param q)
    rw [assignIn] at h
    generalize step (assignIn n) m t (.param q) = o at hc h
    cases hc with
    | same => exact absurd rfl ht
    | followRight _ hs =>
      rw [hq, Option.some_inj] at hs
      subst hs
      obtain ⟨m₁, h₁, heq⟩ := Outcome.rebind_eq_assigned h
      exact ⟨n, m₁, h₁, heq⟩
    | bindRight _ hs _ => simp [hq] at hs
    | followLeft _ hst _ => exact absurd hst hstuck
    | bindLeft _ hst _ _ => exact absurd hst hstuck
    | shape _ _ hst => exact absurd hst hstuck

theorem assignIn_list (h : assignIn n m (.list t) (.list u) = .assigned m') :
    ∃ k, assignIn k m t u = .assigned m' := by
  cases n with
  | zero => cases h
  | succ n =>
    by_cases heq : t = u
    · subst heq
      refine ⟨1, ?_⟩
      simpa [assignIn, step] using h
    · refine ⟨n, ?_⟩
      simpa [assignIn, step, stepLeft, stepShape, slot, heq, Ty.isWildcard] using h

theorem not_below_of_free (hx : m.find? (.param x) = none) (hne : q ≠ x) :
    ¬ m.Below (.param x) (.param q) := by
  intro hb
  rcases hb.cases_head with heq | ⟨u, hu, -⟩
  · exact hne (Ty.param.inj heq).symm
  · rw [step_param_iff, hx] at hu
    cases hu

/-- What a list of elements `t` makes of bindings when it is appended to a list of elements `x`,
where `x` is free and `y` is the fresh element type of the result. -/
structure Appended (m : Bindings) (x y : String) (t : Ty) (m' : Bindings) : Prop where
  bound : m'.find? (.param x) = some t
  models : ∀ σ, Models σ m' ↔ Models σ m ∧ σ x = t.inst σ ∧ σ y = t.inst σ
  other : ∀ q, q ≠ x → q ≠ y → m'.find? (.param q) = m.find? (.param q)
  avoids : ∀ v, ¬ m.Below v (.param x) → ¬ m.Below v (.param y) → ¬ m'.Below v (.param x)

theorem Appended.intro (hm : m.Wf) (hx : m.find? (.param x) = none)
    (hy : m.find? (.param y) = none) (hxy : x ≠ y) (htx : ¬ m.Below t (.param x))
    (hty : ¬ m.Below t (.param y)) : m.Appended x y t
      (rebind ((m.insert (.param y) (.param x)).insert (.param x) t) (.param y)
        (t.mostGeneral (.param x))) := by
  have hyx : Ty.param y ≠ .param x := fun h => hxy (Ty.param.inj h).symm
  have hx₁ : Table.find? (m.insert (.param y) (.param x)) (.param x) = none := by
    rw [Table.find?_insert_of_ne _ _ hyx, hx]
  have hbelow₁ : ∀ {v z}, ¬ m.Below v (.param y) →
      (Below (m.insert (.param y) (.param x)) v (.param z) ↔ m.Below v (.param z)) :=
    fun hv => below_insert_of_not_below hv
  have hm₁ := hm.insert (not_below_of_free hx fun h => hxy h.symm)
  have hm₂ := hm₁.insert ((hbelow₁ hty).not.2 htx)
  have hmodels₂ : ∀ σ, Models σ ((m.insert (.param y) (.param x)).insert (.param x) t) ↔
      Models σ m ∧ σ x = t.inst σ ∧ σ y = t.inst σ := by
    intro σ
    rw [models_insert_free hx₁, models_insert_free hy, Ty.inst, and_assoc]
    refine and_congr_right fun _ => ?_
    constructor
    · exact fun h => ⟨h.2, h.1.trans h.2⟩
    · exact fun h => ⟨h.2.trans h.1.symm, h.1⟩
  have hbelow₂ : ∀ {v z}, ¬ m.Below v (.param x) → ¬ m.Below v (.param y) →
      (Below ((m.insert (.param y) (.param x)).insert (.param x) t) v (.param z) ↔
        m.Below v (.param z)) :=
    fun hvx hvy => (below_insert_of_not_below ((hbelow₁ hvy).not.2 hvx)).trans (hbelow₁ hvy)
  have hfind₂ : ∀ q, q ≠ x → q ≠ y →
      Table.find? ((m.insert (.param y) (.param x)).insert (.param x) t) (.param q) =
        m.find? (.param q) := by
    intro q hqx hqy
    rw [Table.find?_insert_of_ne _ _ fun h => hqx (Ty.param.inj h).symm,
      Table.find?_insert_of_ne _ _ fun h => hqy (Ty.param.inj h).symm]
  -- `y` is bound, so that binding it anew to `x` or `t` changes no instantiation
  have hy₂ : Table.find? ((m.insert (.param y) (.param x)).insert (.param x) t) (.param y) =
      some (.param x) := by
    rw [Table.find?_insert_of_ne _ _ hyx.symm, Table.find?_insert_self]
  refine ⟨?_, fun σ => ?_, fun q hqx hqy => ?_, fun v hvx hvy => ?_⟩
  · rw [find?_rebind_of_ne hxy, Table.find?_insert_self]
  · rw [hm₂.models_rebind (by simp [hy₂]), hmodels₂]
    intro τ hτ
    obtain ⟨-, hτx, hτy⟩ := (hmodels₂ τ).1 hτ
    rw [inst_mostGeneral hτx.symm, hτy]
  · rw [find?_rebind_of_ne hqy, hfind₂ q hqx hqy]
  · rw [rebind]
    split
    · exact (hbelow₂ hvx hvy).not.2 hvx
    · rw [below_insert_of_not_below ((hbelow₂ hvx hvy).not.2 hvy)]
      exact (hbelow₂ hvx hvy).not.2 hvx

theorem assignAll?_append (hm : m.Wf) (hx : m.find? (.param x) = none)
    (hy : m.find? (.param y) = none) (hxy : x ≠ y) (htx : ¬ m.Below t (.param x))
    (hty : ¬ m.Below t (.param y))
    (h : m.assignAll? [.list (.param x), .list t] [.list (.param y), .list (.param y)] =
      some m') : m.Appended x y t m' := by
  obtain ⟨u, us, m₁, heq, h₁, h⟩ := pairwise_cons_eq_assigned (Outcome.toOption_eq_some.1 h)
  cases heq
  obtain ⟨u, us, m₂, heq, h₂, h⟩ := pairwise_cons_eq_assigned h
  cases heq
  obtain ⟨-, rfl⟩ := pairwise_nil_eq_assigned h
  -- the first list binds `y` to `x`
  have hxb := not_below_of_free hx fun h => hxy h.symm
  obtain ⟨k, h₁⟩ := assignIn_list h₁
  obtain rfl := assignIn_fresh hm hy hxb h₁
  have hm₁ := hm.insert hxb
  -- the second one follows this to `x` and binds it to `t`
  obtain ⟨k, h₂⟩ := assignIn_list h₂
  have hne : t ≠ .param y := by
    rintro rfl
    exact hty (.refl m _)
  obtain ⟨k, m₃, h₃, rfl⟩ := assignIn_bound (Table.find?_insert_self _ _ _) hne h₂
  have hx₁ : Table.find? (m.insert (.param y) (.param x)) (.param x) = none := by
    rw [Table.find?_insert_of_ne _ _ fun h => hxy (Ty.param.inj h).symm, hx]
  obtain rfl := assignIn_fresh hm₁ hx₁ ((below_insert_of_not_below hty).not.2 htx) h₃
  exact .intro hm hx hy hxy htx hty

theorem below_list_iff (hk : m.ParamKeys) :
    m.Below (.list t) (.param q) ↔ m.Below t (.param q) := by
  refine ⟨fun hb => ?_, .trans (.child (by simp [Ty.children]))⟩
  rcases hb.cases_head with heq | ⟨u, hc | hu, hb⟩
  · cases heq
  · rwa [List.mem_singleton.1 hc] at hb
  · rw [hk.find?_eq_none rfl] at hu
    cases hu

end Fresh

section Conditional

variable {m₁ : Bindings} {q : String}

theorem assignAll?_conditional (hm : m.Wf) (hq : m.find? (.param q) = none)
    (hs : ¬ m.Below s (.param q)) (ht : ¬ m.Below t (.param q))
    (h : m.assignAll? [s, .list t, u] [.bool, .param q, .param q] = some m') :
    ∃ k l m₁, assignIn k m s .bool = .assigned m₁ ∧ m₁.find? (.param q) = none ∧
      (∀ v, ¬ m.Below v (.param q) → ¬ m₁.Below v (.param q)) ∧
      assignIn l (m₁.insert (.param q) (.list t)) u (.param q) = .assigned m' := by
  obtain ⟨v, vs, m₁, heq, h₁, h⟩ := pairwise_cons_eq_assigned (Outcome.toOption_eq_some.1 h)
  cases heq
  obtain ⟨v, vs, m₂, heq, h₂, h⟩ := pairwise_cons_eq_assigned h
  cases heq
  obtain ⟨v, vs, m₃, heq, h₃, h⟩ := pairwise_cons_eq_assigned h
  cases heq
  obtain ⟨-, rfl⟩ := pairwise_nil_eq_assigned h
  have hbool : ¬ m.Below .bool (.param q) := not_below_of_closed hm.keys rfl
  have hrw := assignIn_rewrites (closed_not_below m q) hs hbool h₁
  obtain ⟨hq₁, havoids⟩ := hrw.avoids
  have hm₁ := hrw.wf hm
  rw [hq] at hq₁
  obtain rfl := assignIn_fresh hm₁ hq₁ ((below_list_iff hm₁.keys).not.2 (havoids t ht)) h₂
  exact ⟨_, _, m₁, h₁, hq₁, havoids, h₃⟩

def Resolved (m : Bindings) (t : Ty) : Prop := ∀ p, t = .param p → m.find? (.param p) = none

theorem resolved_of_isParam_eq_false (h : t.isParam = false) : m.Resolved t := by
  rintro p rfl
  cases h

theorem Wf.resolved_subst (hm : m.Wf) (t : Ty) : m.Resolved (m.subst false t) := by
  intro p hp
  refine (hm.mem_params_subst (t := t) p ?_).2
  rw [hp]
  exact List.mem_singleton_self p

theorem Models.of_assignIn_bool (hm : m.Wf) (ht : m.Resolved t)
    (h : assignIn n m t .bool = .assigned m') (hσ : Models σ m') : Models σ m := by
  induction n generalizing t with
  | zero => cases h
  | succ n ih =>
    have hc := step_case (assignIn n) m t .bool
    rw [assignIn] at h
    generalize step (assignIn n) m t .bool = o at hc h
    cases hc with
    | same =>
      cases h
      exact hσ
    | @followLeft _ _ p _ _ hs => simp [ht p rfl] at hs
    | bindLeft _ _ hfree _ =>
      cases h
      exact ((models_insert_free hfree).1 hσ).1
    | shape _ hst _ =>
      cases t with
      | wrapper p => exact ih (resolved_of_isParam_eq_false rfl) h
      | param p =>
        rcases hst with hp | ⟨r, -, -, hmen⟩
        · cases hp
        · exact absurd (hm.mentions_iff.1 hmen) (not_below_of_closed hm.keys rfl)
      | prim p =>
        have haccept : accept m (Ty.bool == .prim p) = .assigned m' := h
        rw [accept] at haccept
        split at haccept <;> cases haccept
        exact hσ
      | dyn | error =>
        cases h
        exact hσ
      | _ => cases h

theorem models_branches (hm : m.Wf) (hq : m.find? (.param q) = none)
    (ht : ¬ m.Below t (.param q)) (hx : ∀ σ, Models σ m → σ x = t.inst σ)
    (h : assignIn n (m.insert (.param q) (.list t)) (.list (.param x)) (.param q) = .assigned m')
    (σ : String → Ty) : Models σ m' ↔ Models σ m ∧ σ q = .list (σ x) := by
  have hm₁ : Wf (m.insert (.param q) (.list t)) := hm.insert ((below_list_iff hm.keys).not.2 ht)
  have hmodels : ∀ σ, Models σ (m.insert (.param q) (.list t)) ↔
      Models σ m ∧ σ q = .list (σ x) := by
    intro σ
    rw [models_insert_free hq]
    refine and_congr_right fun hσ => ?_
    rw [Ty.inst, hx σ hσ]
  refine (assignIn_neutral hm₁ (fun τ hτ => ?_) h σ).trans (hmodels σ)
  simp only [Ty.inst]
  exact ((hmodels τ).1 hτ).2.symm

theorem find?_branches (hm : m.Wf) (hqx : q ≠ x) (ht : ¬ m.Below t (.param q))
    (hxq : ¬ m.Below (.param x) (.param q)) (hs : m.find? (.param x) = some s)
    (htx : ¬ m.Below t (.param x))
    (hwide : (∀ v, s.lessSpecific v = true) ∨ t.isParam = false ∧ s.lessSpecific t = true)
    (h : assignIn n (m.insert (.param q) (.list t)) (.list (.param x)) (.param q) = .assigned m') :
    m'.find? (.param x) = some s ∧ m'.find? (.param q) = some (.list (.param x)) := by
  have hm₁ : Wf (m.insert (.param q) (.list t)) := hm.insert ((below_list_iff hm.keys).not.2 ht)
  obtain ⟨k, m₁, h₁, rfl⟩ := assignIn_bound (Table.find?_insert_self _ _ _) (by simp) h
  obtain ⟨k, h₁⟩ := assignIn_list h₁
  have hs₁ : Table.find? (m.insert (.param q) (.list t)) (.param x) = some s := by
    rwa [Table.find?_insert_of_ne _ _ fun h => hqx (Ty.param.inj h)]
  have hx₁ := assignIn_wide hs₁ ((below_insert_of_not_below ht).not.2 htx) hwide h₁ hm₁
  have hrw := assignIn_rewrites (closed_not_below _ q) ((below_insert_of_not_below hxq).not.2 hxq)
    ((below_insert_of_not_below ht).not.2 ht) h₁
  have hxq₁ := hrw.avoids.2 _ ((below_insert_of_not_below hxq).not.2 hxq)
  have hm₁' := hrw.wf hm₁
  have hmen : m₁.mentions (.param q) (.list (.param x)) = false := by
    rwa [hm₁'.mentions_eq_false_iff, below_list_iff hm₁'.keys]
  constructor
  · rw [find?_rebind_of_ne hqx.symm, hx₁]
  · have hwider : (Ty.list (.param x)).mostGeneral (.list t) = .list (.param x) :=
      if_pos (by simp [Ty.lessSpecific])
    rw [hwider, rebind, if_neg (by simp [hmen]), Table.find?_insert_self]

end Conditional

end ExprTyping.Bindings

namespace ExprTyping.Ty

theorem lessSpecific_inst {t : Ty} (σ : String → Ty)
    (h : ∀ v, .typeOf v ∈ t.parts → v.params = []) : t.lessSpecific (t.inst σ) = true := by
  have hall : ∀ ts : List Ty, (∀ c ∈ ts, c.lessSpecific (c.inst σ) = true) →
      lessSpecificAll ts (ts.map (inst σ)) = true := by
    intro ts hts
    induction ts with
    | nil => rfl
    | cons c ts ih =>
      rw [List.forall_mem_cons] at hts
      simp [lessSpecificAll, hts.1, ih hts.2]
  have hchild : ∀ {t c : Ty}, (∀ v, .typeOf v ∈ t.parts → v.params = []) → c ∈ t.children →
      ∀ v, .typeOf v ∈ c.parts → v.params = [] :=
    fun h hc v hv => h v (mem_parts_of_mem_children hc hv)
  induction t with
  | typeOf t =>
    rw [inst_eq_self (t := .typeOf t) (h t (mem_parts_self _)) σ]
    simp [lessSpecific]
  | list t ih => simpa [inst, lessSpecific] using ih (hchild h (by simp [children]))
  | map k v ihk ihv =>
    simp [inst, lessSpecific, ihk (hchild h (by simp [children])),
      ihv (hchild h (by simp [children]))]
  | abstract n ts ih =>
    simp only [inst, lessSpecific, instAll_eq_map, beq_self_eq_true, Bool.true_and]
    exact hall ts fun c hc => ih c hc (hchild h (by simpa [children] using hc))
  | function r ts ihr ih =>
    simp only [inst, lessSpecific, instAll_eq_map, Bool.and_eq_true]
    exact ⟨hall ts fun c hc => ih c hc (hchild h (by simp [children, hc])),
      ihr (hchild h (by simp [children]))⟩
  | _ => simp [inst, lessSpecific]

end ExprTyping.Ty
