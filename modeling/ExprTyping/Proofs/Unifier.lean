import ExprTyping.Proofs.Depth

/-!
# First-order assignability is unification

On types without wildcards, `null`, wrappers and type values, assignability makes two types equal
and asks for nothing else: the instantiations that respect the new bindings are those that respect
the old ones and make the two types equal (`Unifies.models`), and as long as there is one of them
the types are assignable (`Unifies.complete`). Binding a parameter anew to one of two types that
were just made equal changes no instantiation, and neither does leaving it as it is; and a parameter
that the occurs check keeps free has no instantiation at all.
-/

namespace ExprTyping

mutual
/-- Whether the type is made of primitives, well-known types, messages, lists, maps, abstract types,
functions and parameters only. -/
def Ty.isFirstOrder : Ty → Bool
  | .prim _ | .wellKnown _ | .message _ | .param _ => true
  | .list t => t.isFirstOrder
  | .map k v => k.isFirstOrder && v.isFirstOrder
  | .abstract _ ts => Ty.allFirstOrder ts
  | .function r ts => r.isFirstOrder && Ty.allFirstOrder ts
  | _ => false

def Ty.allFirstOrder : List Ty → Bool
  | [] => true
  | t :: ts => t.isFirstOrder && Ty.allFirstOrder ts
end

theorem Ty.allFirstOrder_iff {ts : List Ty} :
    Ty.allFirstOrder ts = true ↔ ∀ t ∈ ts, t.isFirstOrder = true := by
  induction ts with
  | nil => simp [allFirstOrder]
  | cons t ts ih => simp [allFirstOrder, ih]

theorem Ty.admits_of_isFirstOrder {t u : Ty} (hne : t ≠ u) (ht : t.isFirstOrder = true)
    (hu : u.isFirstOrder = true) : t.admits u = false := by
  cases t <;> cases u <;> simp_all [admits, isWildcard, isFirstOrder]

theorem Ty.isFirstOrder_of_mem_children {t u : Ty} (ht : t.isFirstOrder = true)
    (hu : u ∈ t.children) : u.isFirstOrder = true := by
  cases t <;> simp_all [isFirstOrder, children, allFirstOrder_iff]
  all_goals grind

namespace Bindings

variable {rec : Bindings → Ty → Ty → Outcome} {m m' : Bindings} {p : String} {s t u : Ty}
  {σ : String → Ty}

def FirstOrder (m : Bindings) : Prop :=
  ∀ p t, m.find? (.param p) = some t → t.isFirstOrder = true

theorem FirstOrder.closed (hm : m.FirstOrder) (hk : m.ParamKeys) :
    m.Closed fun t => t.isFirstOrder = true where
  child t c ht _ hc := Ty.isFirstOrder_of_mem_children ht hc
  bound t u _ hb := by
    obtain ⟨p, rfl⟩ := hk t u hb
    exact hm p u hb

section Models

theorem Models.size_le (hk : m.ParamKeys) (hσ : Models σ m) (h : m.Below t u) :
    (u.inst σ).size ≤ (t.inst σ).size := by
  induction h with
  | refl => exact Nat.le_refl _
  | @tail x y _ hstep ih =>
    rcases hstep with hc | hb
    · exact Nat.le_trans (Nat.le_of_lt (Ty.size_lt_of_mem_children (Ty.inst_mem_children hc))) ih
    · obtain ⟨p, rfl⟩ := hk x y hb
      rwa [Ty.inst, hσ p y hb] at ih

theorem Stuck.inst_ne (hm : m.Wf) (hσ : Models σ m) (hne : t ≠ .param p)
    (ht : m.Stuck t (.param p)) (hb : m.Below t (.param p)) : t.inst σ ≠ σ p := by
  rcases hb.cases_head with rfl | ⟨c, hstep, hc⟩
  · exact absurd rfl hne
  rcases hstep with hchild | hbound
  · have hlt := Ty.size_lt_of_mem_children (Ty.inst_mem_children (σ := σ) hchild)
    have hle := hσ.size_le hm.keys hc
    intro h
    rw [Ty.inst] at hle
    rw [h] at hlt
    omega
  · rcases ht with hp | ⟨q, rfl, hfree, -⟩
    · simp [hm.keys.find?_eq_none hp] at hbound
    · simp [hfree] at hbound

theorem models_insert : Models σ (m.insert (.param p) t) ↔
    σ p = t.inst σ ∧ ∀ q ≠ p, ∀ u, m.find? (.param q) = some u → σ q = u.inst σ := by
  constructor
  · intro hσ
    refine ⟨hσ p t (Table.find?_insert_self _ _ _), fun q hq u hu => hσ q u ?_⟩
    rw [Table.find?_insert_of_ne, hu]
    exact fun hpq => hq (Ty.param.inj hpq).symm
  · rintro ⟨hp, hσ⟩ q u hu
    by_cases hq : q = p
    · subst hq
      rw [Table.find?_insert_self, Option.some_inj] at hu
      rw [hp, hu]
    · refine hσ q hq u ?_
      rwa [Table.find?_insert_of_ne] at hu
      exact fun hpq => hq (Ty.param.inj hpq).symm

theorem models_insert_free (h : m.find? (.param p) = none) :
    Models σ (m.insert (.param p) t) ↔ Models σ m ∧ σ p = t.inst σ := by
  rw [models_insert]
  constructor
  · rintro ⟨hp, hσ⟩
    refine ⟨fun q u hu => hσ q ?_ u hu, hp⟩
    rintro rfl
    simp [h] at hu
  · rintro ⟨hσ, hp⟩
    exact ⟨hp, fun q _ => hσ q⟩

theorem Wf.models_insert_bound (hm : m.Wf) (hs : m.find? (.param p) = some s)
    (ht : ¬ m.Below t (.param p)) (heq : ∀ σ, Models σ m → σ p = t.inst σ) :
    Models σ (m.insert (.param p) t) ↔ Models σ m := by
  constructor
  · intro hσ q u hu
    obtain ⟨hpt, hother⟩ := models_insert.1 hσ
    by_cases hq : q = p
    · -- `s` and `t` have the same substitution, and it is the same in both bindings
      subst hq
      rw [hs, Option.some_inj] at hu
      have hm' := hm.insert ht
      have hsub : m.subst false t = m.subst false s :=
        hm.subst_eq_subst_iff.2 fun σ hσ => (heq σ hσ).symm.trans (hσ q s hs)
      rw [← hu, hpt, ← hm'.inst_subst hσ t, ← hm'.inst_subst hσ s,
        hm.subst_insert hm' ht, hm.subst_insert hm' (hm.not_below hs), hsub]
    · exact hother q hq u hu
  · intro hσ
    exact models_insert.2 ⟨heq σ hσ, fun q _ => hσ q⟩

theorem Wf.models_rebind (hm : m.Wf) (hs : (m.find? (.param p)).isSome)
    (heq : ∀ σ, Models σ m → σ p = t.inst σ) :
    Models σ (m.rebind (.param p) t) ↔ Models σ m := by
  obtain ⟨s, hs⟩ := Option.isSome_iff_exists.1 hs
  rw [rebind]
  split
  · exact Iff.rfl
  · next hmen =>
    exact hm.models_insert_bound hs (hm.mentions_eq_false_iff.1 (by simpa using hmen)) heq

end Models

section Unifies

theorem stepShape_firstOrder (rec : Bindings → Ty → Ty → Outcome) (m : Bindings) (hne : t ≠ u)
    (ht : t.isFirstOrder = true) (hu : u.isFirstOrder = true) :
    stepShape rec m t u = .refused ∧
      (t.isParam = false → u.isParam = false → ∀ σ, t.inst σ ≠ u.inst σ) ∨
    stepShape rec m t u = pairwise rec m t.children u.children ∧
      ∀ σ, t.inst σ = u.inst σ ↔ t.children.map (Ty.inst σ) = u.children.map (Ty.inst σ) := by
  cases Ty.shapePair t u with
  | parts hs => exact .inr ⟨stepShape_of_sameHead rec m hs, fun σ => hs.inst_eq_iff⟩
  | wrapper => cases ht
  | other hs hw =>
    left
    constructor
    · rw [stepShape_eq_accept rec m hs hw, Ty.admits_of_isFirstOrder hne ht hu]
      rfl
    · intro htp hup σ heq
      rcases Ty.sameHead_of_inst_eq hne htp hup heq with hs' | ⟨v, w, rfl, -⟩
      · exact hs hs'
      · cases ht

/-- What makes a comparison of two types a unification, up to its depth. -/
structure Unifies (rec : Bindings → Ty → Ty → Outcome) : Prop where
  rewrites : ∀ {A m t u m'}, m.Closed A → A t → A u → rec m t u = .assigned m' → Rewrites A m m'
  models : ∀ {m t u m'}, m.Wf → m.FirstOrder → t.isFirstOrder = true → u.isFirstOrder = true →
    rec m t u = .assigned m' → ∀ σ, Models σ m' ↔ Models σ m ∧ t.inst σ = u.inst σ
  complete : ∀ {m t u σ}, m.Wf → m.FirstOrder → t.isFirstOrder = true → u.isFirstOrder = true →
    Models σ m → t.inst σ = u.inst σ → rec m t u ≠ .refused

theorem FirstOrder.of_rewrites (hm : m.FirstOrder) (hk : m.ParamKeys)
    (h : Rewrites (fun t => t.isFirstOrder = true) m m') : m'.FirstOrder :=
  fun p t hp => (h.closed (hm.closed hk)).bound (.param p) t rfl hp

section Pairwise

variable {ts us : List Ty}

theorem Unifies.models_pairwise (hrec : Unifies rec) (hm : m.Wf) (hf : m.FirstOrder)
    (hts : ∀ t ∈ ts, t.isFirstOrder = true) (hus : ∀ u ∈ us, u.isFirstOrder = true)
    (h : pairwise rec m ts us = .assigned m') (σ : String → Ty) :
    Models σ m' ↔ Models σ m ∧ ts.map (Ty.inst σ) = us.map (Ty.inst σ) := by
  induction ts generalizing m us with
  | nil =>
    obtain ⟨rfl, rfl⟩ := pairwise_nil_eq_assigned h
    simp
  | cons t ts ih =>
    obtain ⟨u, us, m₁, rfl, hr, h⟩ := pairwise_cons_eq_assigned h
    simp only [List.forall_mem_cons] at hts hus
    have hrw := hrec.rewrites (hf.closed hm.keys) hts.1 hus.1 hr
    rw [ih (hrw.wf hm) (hf.of_rewrites hm.keys hrw) hts.2 hus.2 h,
      hrec.models hm hf hts.1 hus.1 hr]
    simp [and_assoc]

theorem Unifies.complete_pairwise (hrec : Unifies rec) (hm : m.Wf) (hf : m.FirstOrder)
    (hts : ∀ t ∈ ts, t.isFirstOrder = true) (hus : ∀ u ∈ us, u.isFirstOrder = true)
    (hσ : Models σ m) (heq : ts.map (Ty.inst σ) = us.map (Ty.inst σ)) :
    pairwise rec m ts us ≠ .refused := by
  induction ts generalizing m us with
  | nil =>
    cases us with
    | nil => simp [pairwise]
    | cons u us => simp at heq
  | cons t ts ih =>
    cases us with
    | nil => simp at heq
    | cons u us =>
      simp only [List.forall_mem_cons] at hts hus
      simp only [List.map_cons, List.cons.injEq] at heq
      simp only [pairwise]
      cases hr : rec m t u with
      | assigned m₁ =>
        have hrw := hrec.rewrites (hf.closed hm.keys) hts.1 hus.1 hr
        have hσ₁ := (hrec.models hm hf hts.1 hus.1 hr σ).2 ⟨hσ, heq.1⟩
        exact ih (hrw.wf hm) (hf.of_rewrites hm.keys hrw) hts.2 hus.2 hσ₁ heq.2
      | refused => exact absurd hr (hrec.complete hm hf hts.1 hus.1 hσ heq.1)
      | exhausted => simp

end Pairwise

theorem inst_mostGeneral (h : t.inst σ = u.inst σ) : (t.mostGeneral u).inst σ = t.inst σ :=
  mostGeneral_of_both (A := fun v => v.inst σ = t.inst σ) rfl h.symm

theorem models_follow {g : Ty} {m₁ : Bindings} (hm : m.Wf) (hs : m.find? (.param p) = some s)
    (hrw : Rewrites (fun t => t.isFirstOrder = true) m m₁)
    (hmod : ∀ σ, Models σ m₁ ↔ Models σ m ∧ s.inst σ = u.inst σ)
    (hg : ∀ σ, s.inst σ = u.inst σ → g.inst σ = s.inst σ) (σ : String → Ty) :
    Models σ (m₁.rebind (.param p) g) ↔ Models σ m ∧ σ p = u.inst σ := by
  have heq : ∀ τ, Models τ m₁ → τ p = g.inst τ := by
    intro τ hτ
    obtain ⟨hτm, hsu⟩ := (hmod τ).1 hτ
    rw [hg τ hsu, hτm p s hs]
  rw [(hrw.wf hm).models_rebind (hrw.isSome_find? (by simp [hs])) heq, hmod]
  exact and_congr_right fun hσ => by rw [hσ p s hs]

theorem Stuck.isParam_eq_false (hm : m.Wf) (hσ : Models σ m) (hne : t ≠ u) (ht : m.Stuck t u)
    (hu : m.Stuck u t) (heq : t.inst σ = u.inst σ) : t.isParam = false := by
  rcases ht with ht | ⟨p, rfl, -, hmen⟩
  · exact ht
  · exact absurd heq.symm (hu.inst_ne hm hσ hne.symm (hm.mentions_iff.1 hmen))

theorem StepCase.models {o : Outcome} (hc : StepCase rec m t u o) (hrec : Unifies rec) (hm : m.Wf)
    (hf : m.FirstOrder) (ht : t.isFirstOrder = true) (hu : u.isFirstOrder = true)
    (h : o = .assigned m') (σ : String → Ty) :
    Models σ m' ↔ Models σ m ∧ t.inst σ = u.inst σ := by
  cases hc with
  | same =>
    cases h
    simp
  | @followRight t s p hne hs =>
    -- all instantiations make `p`, `s` and `t` equal by now, so either may be the new binding
    obtain ⟨m₁, h₁, rfl⟩ := Outcome.rebind_eq_assigned h
    have hrw := hrec.rewrites (hf.closed hm.keys) ht (hf p s hs) h₁
    rw [Ty.inst, eq_comm]
    refine models_follow hm hs hrw (fun τ => ?_) (fun τ hτ => ?_) σ
    · rw [hrec.models hm hf ht (hf p s hs) h₁, eq_comm]
    · rw [inst_mostGeneral hτ.symm, hτ]
  | bindRight _ hs _ =>
    cases h
    rw [models_insert_free hs, Ty.inst, eq_comm]
  | @followLeft u s p _ _ hs =>
    obtain ⟨m₁, h₁, rfl⟩ := Outcome.rebind_eq_assigned h
    have hrw := hrec.rewrites (hf.closed hm.keys) (hf p s hs) hu h₁
    exact models_follow hm hs hrw (hrec.models hm hf (hf p s hs) hu h₁)
      (fun τ hτ => inst_mostGeneral hτ) σ
  | bindLeft _ _ hs _ =>
    cases h
    rw [models_insert_free hs, Ty.inst]
  | shape hne _ _ =>
    rcases stepShape_firstOrder rec m hne ht hu with ⟨hr, -⟩ | ⟨hp, heq⟩
    · simp [hr] at h
    · rw [heq]
      exact hrec.models_pairwise hm hf (fun _ => Ty.isFirstOrder_of_mem_children ht)
        (fun _ => Ty.isFirstOrder_of_mem_children hu) (hp ▸ h) σ

theorem StepCase.ne_refused {o : Outcome} (hc : StepCase rec m t u o) (hrec : Unifies rec)
    (hm : m.Wf) (hf : m.FirstOrder) (ht : t.isFirstOrder = true) (hu : u.isFirstOrder = true)
    (hσ : Models σ m) (heq : t.inst σ = u.inst σ) : o ≠ .refused := by
  have hrebind : ∀ {o : Outcome} {x g}, o ≠ .refused → o.rebind x g ≠ .refused := by
    intro o x g ho
    cases o <;> simp_all [Outcome.rebind]
  cases hc with
  | same | bindRight | bindLeft => simp
  | @followRight t s p _ hs =>
    refine hrebind (hrec.complete hm hf ht (hf p s hs) hσ ?_)
    rw [heq, Ty.inst, hσ p s hs]
  | @followLeft u s p _ _ hs =>
    refine hrebind (hrec.complete hm hf (hf p s hs) hu hσ ?_)
    rw [← heq, Ty.inst, hσ p s hs]
  | shape hne hst hst' =>
    rcases stepShape_firstOrder rec m hne ht hu with ⟨-, hclash⟩ | ⟨hp, hparts⟩
    · -- a parameter kept free by the occurs check has no instance equal to the other type
      have htp := hst.isParam_eq_false hm hσ hne hst' heq
      have hup := hst'.isParam_eq_false hm hσ hne.symm hst heq.symm
      exact absurd heq (hclash htp hup σ)
    · rw [hp]
      exact hrec.complete_pairwise hm hf (fun _ => Ty.isFirstOrder_of_mem_children ht)
        (fun _ => Ty.isFirstOrder_of_mem_children hu) hσ ((hparts σ).1 heq)

theorem unifies_assignIn (n : Nat) : Unifies (assignIn n) := by
  induction n with
  | zero => exact ⟨by simp [assignIn], by simp [assignIn], by simp [assignIn]⟩
  | succ n ih =>
    exact ⟨assignIn_rewrites, (step_case _ _ _ _).models ih, (step_case _ _ _ _).ne_refused ih⟩

/-- On first-order types, assignability computes a most general unifier that respects the bindings
it starts from. -/
theorem assign?_mostGeneralUnifier {m : Bindings} {t u : Ty} (hk : m.ParamKeys) (ha : m.Acyclic)
    (hf : m.FirstOrder) (ht : t.isFirstOrder = true) (hu : u.isFirstOrder = true) :
    (∀ m', m.assign? t u = some m' →
      m'.ParamKeys ∧ m'.Acyclic ∧ m'.subst false t = m'.subst false u ∧
      ∀ p s, m.find? (.param p) = some s → m'.subst false (.param p) = m'.subst false s) ∧
    ∀ σ, Models σ m → t.inst σ = u.inst σ → ∃ m', m.assign? t u = some m' ∧ Models σ m' := by
  have hm : m.Wf := ⟨hk, ha⟩
  have hmod : ∀ m', m.assign t u = .assigned m' →
      ∀ σ, Models σ m' ↔ Models σ m ∧ t.inst σ = u.inst σ :=
    fun _ h => (unifies_assignIn _).models hm hf ht hu h
  constructor
  · intro m' h
    have hwf := (assign?_rewrites (hf.closed hk) ht hu h).wf hm
    rw [assign?, Outcome.toOption_eq_some] at h
    refine ⟨hwf.keys, hwf.acyclic, ?_, fun p s hs => ?_⟩
    · exact hwf.subst_eq_subst_iff.2 fun σ hσ => ((hmod m' h σ).1 hσ).2
    · exact hwf.subst_eq_subst_iff.2 fun σ hσ => ((hmod m' h σ).1 hσ).1 p s hs
  · intro σ hσ heq
    cases h : m.assign t u with
    | assigned m' => exact ⟨m', Outcome.toOption_eq_some.2 h, (hmod m' h σ).2 ⟨hσ, heq⟩⟩
    | refused => exact absurd h ((unifies_assignIn _).complete hm hf ht hu hσ heq)
    | exhausted => exact absurd h (hm.assign_ne_exhausted t u)

theorem assign?_map_of_shared_param :
    let m : Bindings := Table.insert {} (.param "A") (.list (.param "B"))
    let t := Ty.map (.param "A") (.param "C")
    let u := Ty.map (.list .int) (.param "A")
    let σ := fun p => if p = "B" then Ty.int else .list .int
    ∃ m', m.assign? t u = some m' ∧ m'.subst false t = m'.subst false u ∧ Models σ m' := by
  intro m t u σ
  have hm : m.Wf := Wf.empty.insert (Wf.empty.mentions_eq_false_iff.1 (by decide))
  have hfind : ∀ p s, m.find? (.param p) = some s → p = "A" ∧ s = .list (.param "B") := by
    intro p s hs
    simp only [m, Table.find?_insert, Ty.param.injEq] at hs
    split at hs
    · next hp =>
      cases hs
      exact ⟨hp.symm, rfl⟩
    · cases hs
  have hf : m.FirstOrder := by
    intro p s hs
    rw [(hfind p s hs).2]
    decide
  have hσ : Models σ m := by
    intro p s hs
    obtain ⟨rfl, rfl⟩ := hfind p s hs
    decide
  obtain ⟨hsound, hcomplete⟩ :=
    assign?_mostGeneralUnifier (t := t) (u := u) hm.keys hm.acyclic hf (by decide) (by decide)
  obtain ⟨m', h, hσ'⟩ := hcomplete σ hσ (by decide)
  exact ⟨m', h, (hsound m' h).2.2.1, hσ'⟩

end Unifies

end Bindings

end ExprTyping
