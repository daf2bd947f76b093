import ExprTyping.Proofs.AssignmentRules
import ExprTyping.Proofs.NeutralAssignment

/-!
# What the new bindings make of assigned types

The bindings that an assignment returns are meant to make the one type fit the other. They do so in
three cases. If each parameter on the left is free, occurs once and is not reached from the right,
then a parameter is only ever bound anew to something wider, and whatever fitted its old binding
fits the new one (`MeetsOnce`, `Justifies`). If the new bindings keep what each parameter was to be
bound to when it was met, then the rules can be read with these bindings (`Keeps`). And if there are
no wildcards and no `null`, then up to wrappers and type values an assignment is a unification
(`Ty.core`, `Equates`), so all occurrences of a parameter stay equal to what they were compared
with.

Otherwise a parameter on the left may leave a binding behind that other types were compared with.
-/

namespace ExprTyping

open Relation

namespace Ty

variable {t u : Ty} {σ : String → Ty}

mutual
def core : Ty → Ty
  | wrapper p => prim p
  | typeOf _ => type
  | list t => list t.core
  | map k v => map k.core v.core
  | abstract n ts => abstract n (coreAll ts)
  | function r ts => function r.core (coreAll ts)
  | t => t

def coreAll : List Ty → List Ty
  | [] => []
  | t :: ts => t.core :: coreAll ts
end

attribute [local simp] core

@[simp] theorem coreAll_eq_map (ts : List Ty) : coreAll ts = ts.map core := by
  induction ts with
  | nil => rfl
  | cons t ts ih => simp [coreAll, ih]

theorem core_base (t : Ty) : t.base.core = t.core := by
  cases t <;> simp [base]

theorem core_inst (t : Ty) (σ : String → Ty) :
    (t.inst σ).core = t.core.inst fun p => (σ p).core := by
  induction t with
  | list t ih => simp [inst, ih]
  | map k v ihk ihv => simp [inst, ihk, ihv]
  | abstract n ts ih => simpa [inst] using ih
  | function r ts ihr ih => simpa [inst, ihr] using ih
  | _ => simp [inst]

theorem mem_params_of_mem_params_core {n : String} (h : n ∈ t.core.params) : n ∈ t.params := by
  induction t with
  | list t ih => exact ih h
  | map k v ihk ihv =>
    simp only [core, params, List.mem_append] at h ⊢
    exact h.imp ihk ihv
  | abstract m ts ih =>
    simp only [core, params, coreAll_eq_map, mem_paramsAll, List.mem_map] at h ⊢
    grind
  | function r ts ihr ih =>
    simp only [core, params, coreAll_eq_map, mem_paramsAll, List.mem_map, List.mem_append] at h ⊢
    grind
  | typeOf t => cases h
  | wrapper p => cases h
  | _ => exact h

theorem forall₂_eq_iff {f : Ty → Ty} {ts us : List Ty} :
    List.Forall₂ (fun t u => f t = f u) ts us ↔ ts.map f = us.map f := by
  rw [← List.forall₂_eq_eq_eq, List.forall₂_map_left_iff, List.forall₂_map_right_iff]

theorem SameHead.core_inst_eq_iff (h : SameHead t u) : t.core.inst σ = u.core.inst σ ↔
    List.Forall₂ (fun c d => c.core.inst σ = d.core.inst σ) t.children u.children := by
  cases h <;>
    simp [Ty.inst, children, forall₂_eq_iff (f := fun c => c.core.inst σ),
      Function.comp_def, and_comm]

theorem paramsAll_append (ts us : List Ty) :
    paramsAll (ts ++ us) = paramsAll ts ++ paramsAll us := by
  induction ts with
  | nil => rfl
  | cons t ts ih => simp [paramsAll, ih]

theorem base_eq_of_core_eq (h : t.core = u.core) (hs : ¬ SameHead t u) : t.base = u.base := by
  cases t <;> cases u <;> simp_all [base]

theorem fits_of_core_eq (h : t.core = u.core) : t.fits u = true := by
  induction t using childInduction generalizing u with
  | h t ih =>
    by_cases hs : SameHead t u
    · rw [← inst_param t.core, ← inst_param u.core, hs.core_inst_eq_iff] at h
      rw [hs.fits_iff]
      refine forall₂_imp ?_ h
      intro c hc d _ hcd
      exact ih c hc (by simpa using hcd)
    · exact fits_of_base_eq (base_eq_of_core_eq h hs)

end Ty

namespace Bindings

variable {rec : Bindings → Ty → Ty → Outcome} {m m' : Bindings} {p : String} {s t u : Ty}
  {ts us : List Ty}

theorem accept_eq_assigned {b : Bool} (h : accept m b = .assigned m') : b = true ∧ m' = m := by
  cases b with
  | true =>
    cases h
    exact ⟨rfl, rfl⟩
  | false => cases h

section MetOnce

variable {A : Ty → Prop} {θ : String → Ty} {q : String} {m₁ : Bindings}

/-- The parameters on the left are free and occur once, and nothing on the right leads to them. -/
structure MeetsOnce (m : Bindings) (ts us : List Ty) : Prop where
  free : ∀ p ∈ Ty.paramsAll ts, m.find? (.param p) = none
  once : (Ty.paramsAll ts).Nodup
  apart : ∀ p ∈ Ty.paramsAll ts, ∀ u ∈ us, ¬ m.Below u (.param p)

namespace MeetsOnce

theorem of_closed (hts : ∀ t ∈ ts, t.params = []) : m.MeetsOnce ts us := by
  have hnone : ∀ p, p ∉ Ty.paramsAll ts := by
    intro p hp
    obtain ⟨t, ht, hpt⟩ := Ty.mem_paramsAll.1 hp
    simp [hts t ht] at hpt
  refine ⟨fun p hp => absurd hp (hnone p), ?_, fun p hp => absurd hp (hnone p)⟩
  rw [List.eq_nil_iff_forall_not_mem.2 hnone]
  exact List.nodup_nil

theorem not_below (h : m.MeetsOnce ts us) (hk : m.ParamKeys) (ht : t ∈ ts)
    (hq : q ∉ t.params) : ¬ m.Below t (.param q) := by
  intro hb
  obtain ⟨p, hp, hpq⟩ := hb.exists_reaches hk
  rcases ReflTransGen.cases_head hpq with rfl | ⟨r, ⟨s, hs, -⟩, -⟩
  · exact hq hp
  · simp [h.free p (Ty.mem_paramsAll.2 ⟨t, ht, hp⟩)] at hs

theorem not_below_right (h : m.MeetsOnce ts us) (hk : m.ParamKeys) (ht : t ∈ ts)
    (hu : u ∈ us) (hq : m.Below u (.param q)) : ¬ m.Below t (.param q) :=
  h.not_below hk ht fun hqt => h.apart q (Ty.mem_paramsAll.2 ⟨t, ht, hqt⟩) u hu hq

theorem bound (h : m.MeetsOnce [t] [.param q]) (hs : m.find? (.param q) = some s) :
    m.MeetsOnce [t] [s] where
  free := h.free
  once := h.once
  apart p hp u hu hb := by
    cases List.mem_singleton.1 hu
    exact h.apart p hp _ (List.mem_singleton_self _) (.trans (.bound hs) hb)

theorem head {ts us : List Ty} (h : m.MeetsOnce (t :: ts) (u :: us)) : m.MeetsOnce [t] [u] := by
  have hsub : ∀ p ∈ Ty.paramsAll [t], p ∈ Ty.paramsAll (t :: ts) := by
    simp +contextual [Ty.paramsAll]
  refine ⟨fun p hp => h.free p (hsub p hp), ?_, fun p hp v hv => ?_⟩
  · simpa [Ty.paramsAll] using (List.nodup_append.1 h.once).1
  · cases List.mem_singleton.1 hv
    exact h.apart p (hsub p hp) u List.mem_cons_self

theorem tail {ts us : List Ty} (h : m.MeetsOnce (t :: ts) (u :: us)) (hk : m.ParamKeys)
    (hrw : ∀ q, ¬ m.Below t (.param q) → ¬ m.Below u (.param q) →
      Rewrites (fun x => ¬ m.Below x (.param q)) m m₁) : m₁.MeetsOnce ts us := by
  have hsub : ∀ p ∈ Ty.paramsAll ts, p ∈ Ty.paramsAll (t :: ts) := by
    simp +contextual [Ty.paramsAll]
  have havoids : ∀ p ∈ Ty.paramsAll ts, m₁.find? (.param p) = m.find? (.param p) ∧
      ∀ v, ¬ m.Below v (.param p) → ¬ m₁.Below v (.param p) := by
    intro p hp
    have hpt : p ∉ t.params := fun hpt => (List.nodup_append.1 h.once).2.2 p hpt p hp rfl
    exact (hrw p (h.not_below hk List.mem_cons_self hpt)
      (h.apart p (hsub p hp) u List.mem_cons_self)).avoids
  refine ⟨fun p hp => ?_, (List.nodup_append.1 h.once).2.1, fun p hp v hv => ?_⟩
  · rw [(havoids p hp).1, h.free p (hsub p hp)]
  · exact (havoids p hp).2 v (h.apart p (hsub p hp) v (List.mem_cons_of_mem u hv))

theorem children (h : m.MeetsOnce [t] [u]) (hs : t.SameHead u) :
    m.MeetsOnce t.children u.children := by
  have hperm : (Ty.paramsAll t.children).Perm (Ty.paramsAll [t]) := by
    cases hs with
    | function r s ts us =>
      simpa [Ty.paramsAll_append, Ty.paramsAll, Ty.params, Ty.children] using List.perm_append_comm
    | _ => simp [Ty.paramsAll, Ty.params, Ty.children]
  refine ⟨fun p hp => h.free p (hperm.mem_iff.1 hp), hperm.nodup_iff.2 h.once,
    fun p hp c hc hb => ?_⟩
  exact h.apart p (hperm.mem_iff.1 hp) u (List.mem_singleton_self u) (.trans (.child hc) hb)

end MeetsOnce

/-- The instantiation makes `p` at least as wide as `s`, and equal to it if `s` is a parameter. -/
structure Widens (θ : String → Ty) (p : String) (s : Ty) : Prop where
  wide : (θ p).lessSpecific (s.inst θ) = true
  equal : s.isParam = true → θ p = s.inst θ

def Admits (A : Ty → Prop) (θ : String → Ty) (m : Bindings) : Prop :=
  ∀ p s, A (.param p) → m.find? (.param p) = some s → Widens θ p s

theorem Models.admits (h : Models θ m) : Admits A θ m := by
  intro p s _ hs
  refine ⟨?_, fun _ => h p s hs⟩
  rw [h p s hs]
  exact Ty.lessSpecific_refl _

/-- The instantiation makes `t` fit `u`, and keeps it the wider one if it was; a parameter that `t`
is wider than is made equal to `t`. -/
structure Compares (θ : String → Ty) (t u : Ty) : Prop where
  fits : (t.inst θ).fits (u.inst θ) = true
  wide : t.lessSpecific u = true → (t.inst θ).lessSpecific (u.inst θ) = true
  equal : u.isParam = true → t.lessSpecific u = true → t.inst θ = u.inst θ

theorem Compares.refl (θ : String → Ty) (t : Ty) : Compares θ t t :=
  ⟨Ty.fits_refl _, fun _ => Ty.lessSpecific_refl _, fun _ _ => rfl⟩

theorem Widens.eq_inst (h : Widens θ p t) (hp : (θ p).params = [])
    (ht : t.lessSpecific (.param q) = true) : θ p = t.inst θ := by
  have hcases : t = .dyn ∨ t.isParam = true := by
    cases t <;> simp_all [Ty.lessSpecific, Ty.isParam]
  rcases hcases with rfl | ht
  · have hwide := h.wide
    cases hv : θ p <;> simp_all [Ty.lessSpecific, Ty.inst, Ty.params]
  · exact h.equal ht

theorem Widens.compares (h : Widens θ q t) (hq : (θ q).params = []) :
    Compares θ t (.param q) where
  fits := Ty.fits_of_lessSpecific hq h.wide
  wide ht := by
    rw [← h.eq_inst hq ht]
    exact Ty.lessSpecific_refl _
  equal _ ht := (h.eq_inst hq ht).symm

theorem find?_rebind_self (h : m.find? (.param p) = some t ∨ m.mentions (.param p) t = false) :
    (m.rebind (.param p) t).find? (.param p) = some t := by
  rw [rebind]
  split
  · next hmen => simpa [hmen] using h
  · exact Table.find?_insert_self _ _ _

/-- What is widened after `q` was followed to its binding was widened before. The parameter `q`
itself plays no part in between. -/
theorem Admits.follow (hθ : ∀ p, (θ p).params = []) (hm : m.Wf)
    (hs : m.find? (.param q) = some s) (hq : A (.param q)) (ht : ¬ m.Below t (.param q))
    (hrw : Rewrites (fun x => A x ∧ ¬ m.Below x (.param q)) m m₁)
    (hrec : Admits (fun x => A x ∧ ¬ m.Below x (.param q)) θ m₁ →
      Admits (fun x => A x ∧ ¬ m.Below x (.param q)) θ m ∧ Compares θ t s)
    (hadm : Admits A θ (m₁.rebind (.param q) (t.mostGeneral s))) :
    Admits A θ m ∧ Compares θ t (.param q) := by
  have havoids := (hrw.mono fun _ h => h.2).avoids
  have hother : ∀ p, p ≠ q →
      (m₁.rebind (.param q) (t.mostGeneral s)).find? (.param p) = m₁.find? (.param p) :=
    fun p hp => find?_rebind_of_ne hp
  obtain ⟨hadm₀, hcmp⟩ := hrec fun p v hp hv => by
    have hpq : p ≠ q := by
      rintro rfl
      exact hp.2 (.refl m _)
    exact hadm p v hp.1 ((hother p hpq).trans hv)
  -- `q` comes to be bound to `t` if that is wider than `s`
  have hbound : t.lessSpecific s = true → Widens θ q t := by
    intro hts
    rw [Ty.mostGeneral, if_pos hts] at hadm
    have hmen := (hrw.wf hm).mentions_eq_false_iff.2 (havoids.2 t ht)
    exact hadm q t hq (find?_rebind_self (.inr hmen))
  have hwidens : Widens θ q s := by
    by_cases hts : t.lessSpecific s = true
    · have hqt := hbound hts
      refine ⟨Ty.lessSpecific_trans hqt.wide (hcmp.wide hts), fun hsp => ?_⟩
      obtain ⟨r, rfl⟩ := Ty.isParam_iff.1 hsp
      exact (hqt.eq_inst (hθ q) hts).trans (hcmp.equal rfl hts)
    · rw [Ty.mostGeneral, if_neg hts] at hadm
      exact hadm q s hq (find?_rebind_self (.inl (havoids.1.trans hs)))
  refine ⟨?_, ⟨Ty.fits_of_wider (hθ q) hcmp.fits hwidens.wide, fun htq => ?_, fun _ htq => ?_⟩⟩
  · intro p v hp hv
    by_cases hpq : p = q
    · subst hpq
      rw [hs, Option.some_inj] at hv
      exact hv ▸ hwidens
    by_cases hbelow : m.Below (.param p) (.param q)
    · apply hadm p v hp
      rw [hother p hpq, hrw.find?_eq fun h => h.2 hbelow, hv]
    · exact hadm₀ p v ⟨hp, hbelow⟩ hv
  · exact ((hbound (Ty.lessSpecific_of_param htq s)).compares (hθ q)).wide htq
  · exact ((hbound (Ty.lessSpecific_of_param htq s)).compares (hθ q)).equal rfl htq

theorem Admits.of_insert (hadm : Admits A θ (m.insert (.param p) t))
    (hs : m.find? (.param p) = none) : Admits A θ m := by
  intro q v hq hv
  apply hadm q v hq
  rwa [Table.find?_insert_of_ne]
  intro hpq
  rw [← hpq, hs] at hv
  cases hv

/-- Under every instantiation that admits the new bindings, and hence the old ones, types on the
left whose parameters are met once fit what they are compared with. -/
structure Justifies (θ : String → Ty) (rec : Bindings → Ty → Ty → Outcome) : Prop where
  rewrites : ∀ {A m t u m'}, m.Closed A → A t → A u → rec m t u = .assigned m' → Rewrites A m m'
  compares : ∀ {A m t u m'}, m.Wf → m.Closed A → A t → A u → m.MeetsOnce [t] [u] →
    rec m t u = .assigned m' → Admits A θ m' → Admits A θ m ∧ Compares θ t u

theorem Justifies.pairwise (hrec : Justifies θ rec) (hm : m.Wf) (hA : m.Closed A)
    (hts : ∀ t ∈ ts, A t) (hus : ∀ u ∈ us, A u) (hmeets : m.MeetsOnce ts us)
    (h : pairwise rec m ts us = .assigned m') (hadm : Admits A θ m') :
    Admits A θ m ∧ List.Forall₂ (Compares θ) ts us := by
  induction ts generalizing m us with
  | nil =>
    obtain ⟨rfl, rfl⟩ := pairwise_nil_eq_assigned h
    exact ⟨hadm, .nil⟩
  | cons t ts ih =>
    obtain ⟨u, us, m₁, rfl, hr, h⟩ := pairwise_cons_eq_assigned h
    simp only [List.forall_mem_cons] at hts hus
    have hrw := hrec.rewrites hA hts.1 hus.1 hr
    have htail := hmeets.tail hm.keys fun q ht hu => hrec.rewrites (closed_not_below m q) ht hu hr
    obtain ⟨hadm₁, hcmps⟩ := ih (hrw.wf hm) (hrw.closed hA) hts.2 hus.2 htail h
    obtain ⟨hadm₀, hcmp⟩ := hrec.compares hm hA hts.1 hus.1 hmeets.head hr hadm₁
    exact ⟨hadm₀, .cons hcmp hcmps⟩

theorem Compares.of_children (hs : t.SameHead u)
    (h : List.Forall₂ (Compares θ) t.children u.children) : Compares θ t u where
  fits := by
    rw [(hs.inst_both θ).fits_iff, Ty.children_inst hs.isParam_eq_false,
      Ty.children_inst hs.symm.isParam_eq_false, List.forall₂_map_left_iff,
      List.forall₂_map_right_iff]
    exact h.imp fun _ _ hc => hc.fits
  wide hwide := by
    rw [(hs.inst_both θ).lessSpecific_iff, Ty.children_inst hs.isParam_eq_false,
      Ty.children_inst hs.symm.isParam_eq_false, List.forall₂_map_left_iff,
      List.forall₂_map_right_iff]
    exact .mp (fun _ _ hc hw => hc.wide hw) h (hs.lessSpecific_iff.1 hwide)
  equal hu := by simp [hs.symm.isParam_eq_false] at hu

theorem Compares.of_admits (hs : ¬ t.SameHead u) (ht : t.isParam = false) (hu : u.isParam = false)
    (h : t.admits u = true) : Compares θ t u where
  fits := Ty.fits_inst_of_admits h θ
  wide hwide := by
    cases Ty.wider_of_lessSpecific hwide with
    | dyn => simp [Ty.inst, Ty.lessSpecific]
    | param => cases ht
    | same => exact Ty.lessSpecific_refl _
    | parts hs' => exact absurd hs' hs
  equal hu' := by simp [hu] at hu'

theorem StepCase.compares {o : Outcome} (hc : StepCase rec m t u o) (hrec : Justifies θ rec)
    (hθ : ∀ p, (θ p).params = []) (hm : m.Wf) (hA : m.Closed A) (ht : A t) (hu : A u)
    (hmeets : m.MeetsOnce [t] [u]) (h : o = .assigned m') (hadm : Admits A θ m') :
    Admits A θ m ∧ Compares θ t u := by
  have hleft : ∀ {q}, m.Below u (.param q) → ¬ m.Below t (.param q) :=
    hmeets.not_below_right hm.keys (List.mem_singleton_self t) (List.mem_singleton_self u)
  have hfree : ∀ {p}, t = .param p → m.find? t = none ∧ ¬ m.Below u t := by
    rintro p rfl
    have hp : p ∈ Ty.paramsAll [.param p] := by simp [Ty.paramsAll, Ty.params]
    exact ⟨hmeets.free p hp, hmeets.apart p hp u (List.mem_singleton_self u)⟩
  cases hc with
  | same =>
    cases h
    exact ⟨hadm, .refl θ t⟩
  | @followRight t s q hne hs =>
    obtain ⟨m₁, h₁, rfl⟩ := Outcome.rebind_eq_assigned h
    have hA' : m.Closed fun x => A x ∧ ¬ m.Below x (.param q) :=
      ⟨fun t c ht hi hc => ⟨hA.child t c ht.1 hi hc, fun hb => ht.2 (.trans (.child hc) hb)⟩,
        fun t u ht hu => ⟨hA.bound t u ht.1 hu, fun hb => ht.2 (.trans (.bound hu) hb)⟩⟩
    have ht' := And.intro ht (hleft (.refl m _))
    have hs' := And.intro (hA.bound _ s hu hs) (hm.not_below hs)
    exact Admits.follow hθ hm hs hu ht'.2 (hrec.rewrites hA' ht' hs' h₁)
      (hrec.compares hm hA' ht' hs' (hmeets.bound hs) h₁) hadm
  | @bindRight t q hne hs hmen =>
    cases h
    exact ⟨hadm.of_insert hs, (hadm q t hu (Table.find?_insert_self _ _ _)).compares (hθ q)⟩
  | @followLeft u s p hne hst hs => simp [(hfree rfl).1] at hs
  | @bindLeft u p hne hst hs hmen =>
    cases h
    have hp := hadm p u ht (Table.find?_insert_self _ _ _)
    exact ⟨hadm.of_insert hs, (Ty.Replaces.of_lessSpecific (hθ p) hp.wide).fits, fun _ => hp.wide,
      fun hup _ => hp.equal hup⟩
  | shape hne hst hst' =>
    have htp : t.isParam = false := by
      rcases hst with ht | ⟨p, rfl, -, hmen⟩
      · exact ht
      · exact absurd (hm.mentions_iff.1 hmen) (hfree rfl).2
    have hup : u.isParam = false := by
      rcases hst' with hu | ⟨q, rfl, -, hmen⟩
      · exact hu
      · exact absurd (hm.mentions_iff.1 hmen) (hleft (.refl m _))
    cases Ty.shapePair t u with
    | parts hs =>
      rw [stepShape_of_sameHead rec m hs] at h
      obtain ⟨hadm₀, hcmps⟩ := hrec.pairwise hm hA
        (fun c hc => hA.child t c ht hs.inner?_eq_none hc)
        (fun c hc => hA.child u c hu hs.symm.inner?_eq_none hc) (hmeets.children hs) h hadm
      exact ⟨hadm₀, .of_children hs hcmps⟩
    | wrapper p u =>
      rw [stepShape_wrapper] at h
      split at h
      · next hw =>
        cases h
        exact ⟨hadm, .of_admits (by rintro ⟨⟩) htp hup (by simp [Ty.admits, hw])⟩
      · have hp := hA.child _ (.prim p) ht rfl (by simp [Ty.children])
        obtain ⟨hadm₀, hcmp⟩ := hrec.compares hm hA hp hu (.of_closed (by simp [Ty.params])) h hadm
        refine ⟨hadm₀, (Ty.fits_wrapper p (u.inst θ)).trans hcmp.fits, fun hwide => ?_, ?_⟩
        · cases Ty.wider_of_lessSpecific hwide with
          | same => exact absurd rfl hne
          | parts hs => cases hs
        · simp [hup]
    | other hs hw =>
      rw [stepShape_eq_accept rec m hs hw] at h
      obtain ⟨ha, rfl⟩ := accept_eq_assigned h
      exact ⟨hadm, .of_admits hs htp hup ha⟩

theorem justifies_assignIn (hθ : ∀ p, (θ p).params = []) (n : Nat) :
    Justifies θ (assignIn n) := by
  induction n with
  | zero => exact ⟨assignIn_rewrites, fun _ _ _ _ _ h => by cases h⟩
  | succ n ih => exact ⟨assignIn_rewrites, (step_case _ _ _ _).compares ih hθ⟩

end MetOnce

section Rigid

variable {A : Ty → Prop} {σ : String → Ty}

/-- The types that a comparison of `t` can come to: parts of it, though not of type values, and what
parameters are bound to. -/
def Meets (m : Bindings) : Ty → Ty → Prop :=
  ReflTransGen fun t u => t.inner? = none ∧ u ∈ t.children ∨ m.find? t = some u

/-- No comparison of `t` comes to a wildcard or to `null`. -/
def Rigid (m : Bindings) (t : Ty) : Prop :=
  ∀ u, m.Meets t u → u.isWildcard = false ∧ u ≠ .null

theorem closed_rigid (m : Bindings) : m.Closed m.Rigid where
  child _ _ ht hi hc u hu := ht u (.head (.inl ⟨hi, hc⟩) hu)
  bound _ _ ht hb u hu := ht u (.head (.inr hb) hu)

theorem rigid_of_closed {A : Ty → Prop} (hA : m.Closed A)
    (hplain : ∀ x, A x → x.isWildcard = false ∧ x ≠ .null) (ht : A t) : m.Rigid t := by
  intro u hu
  apply hplain
  induction hu with
  | refl => exact ht
  | tail _ hstep ih =>
    rcases hstep with ⟨hi, hc⟩ | hb
    · exact hA.child _ _ ih hi hc
    · exact hA.bound _ _ ih hb

theorem base_eq_of_fits (ht : t.isWildcard = false ∧ t ≠ .null) (hu : u.isWildcard = false)
    (hs : ¬ Ty.SameHead t u) (h : t.fits u = true) : t.base = u.base := by
  cases Ty.fits_cases h with
  | wildcard hw => simp [ht.1, hu] at hw
  | null => exact absurd rfl ht.2
  | base hb => exact hb
  | parts hs' => exact absurd hs' hs

def core (m : Bindings) : Bindings := m.mapValues Ty.core

theorem find?_core (m : Bindings) (t : Ty) : m.core.find? t = (m.find? t).map Ty.core :=
  Table.find?_mapValues _ _ _

theorem Points.of_core {q : String} (h : m.core.Points p q) : m.Points p q := by
  obtain ⟨t, ht, hq⟩ := h
  rw [find?_core, Option.map_eq_some_iff] at ht
  obtain ⟨s, hs, rfl⟩ := ht
  exact ⟨s, hs, Ty.mem_params_of_mem_params_core hq⟩

theorem Wf.core (hm : m.Wf) : m.core.Wf where
  keys k t h := by
    rw [find?_core, Option.map_eq_some_iff] at h
    obtain ⟨s, hs, -⟩ := h
    exact hm.keys k s hs
  acyclic p hp := hm.acyclic p (TransGen.mono (fun _ _ => Points.of_core) _ _ hp)

theorem Wf.not_below_core (hm : m.Wf) (h : ¬ m.Below t (.param p)) :
    ¬ m.core.Below t.core (.param p) := by
  intro hb
  obtain ⟨q, hq, hqp⟩ := hb.exists_reaches hm.core.keys
  exact h (.trans (.of_mem_params (Ty.mem_params_of_mem_params_core hq))
    (.of_reaches (ReflTransGen.mono (fun _ _ => Points.of_core) _ _ hqp)))

theorem models_core_rebind {g : Ty} (hm : m.Wf) (hs : m.find? (.param p) = some s)
    (heq : ∀ τ, Models τ m.core → τ p = g.core.inst τ) :
    Models σ (m.rebind (.param p) g).core ↔ Models σ m.core := by
  rw [rebind]
  split
  · exact Iff.rfl
  · next hmen =>
    have hg := hm.mentions_eq_false_iff.1 (Bool.not_eq_true _ ▸ hmen)
    rw [Bindings.core, Table.mapValues_insert]
    exact hm.core.models_insert_bound (by rw [find?_core, hs]; rfl) (hm.not_below_core hg) heq

structure Equates (A : Ty → Prop) (rec : Bindings → Ty → Ty → Outcome) : Prop where
  rewrites : ∀ {m t u m'}, m.Closed A → A t → A u → rec m t u = .assigned m' → Rewrites A m m'
  models : ∀ {m t u m' σ}, m.Wf → m.Closed A → A t → A u → rec m t u = .assigned m' →
    Models σ m'.core → Models σ m.core ∧ t.core.inst σ = u.core.inst σ

theorem Equates.pairwise (hrec : Equates A rec) (hm : m.Wf) (hA : m.Closed A)
    (hts : ∀ t ∈ ts, A t) (hus : ∀ u ∈ us, A u) (h : pairwise rec m ts us = .assigned m')
    (hσ : Models σ m'.core) :
    Models σ m.core ∧ List.Forall₂ (fun t u => t.core.inst σ = u.core.inst σ) ts us := by
  induction ts generalizing m us with
  | nil =>
    obtain ⟨rfl, rfl⟩ := pairwise_nil_eq_assigned h
    exact ⟨hσ, .nil⟩
  | cons t ts ih =>
    obtain ⟨u, us, m₁, rfl, h₁, h⟩ := pairwise_cons_eq_assigned h
    simp only [List.forall_mem_cons] at hts hus
    have hrw := hrec.rewrites hA hts.1 hus.1 h₁
    obtain ⟨hσ₁, heqs⟩ := ih (hrw.wf hm) (hrw.closed hA) hts.2 hus.2 h
    obtain ⟨hσ₀, heq⟩ := hrec.models hm hA hts.1 hus.1 h₁ hσ₁
    exact ⟨hσ₀, .cons heq heqs⟩

theorem models_core_follow {g : Ty} {m₁ : Bindings} (hm : m.Wf) (hs : m.find? (.param p) = some s)
    (hrw : Rewrites A m m₁)
    (hmod : ∀ τ, Models τ m₁.core → Models τ m.core ∧ s.core.inst τ = u.core.inst τ)
    (hg : g = s ∨ g = u) (hσ : Models σ (m₁.rebind (.param p) g).core) :
    Models σ m.core ∧ σ p = u.core.inst σ := by
  have hbound : ∀ τ, Models τ m.core → τ p = s.core.inst τ := by
    intro τ hτ
    exact hτ p s.core (by rw [find?_core, hs]; rfl)
  have heq : ∀ τ, Models τ m₁.core → τ p = g.core.inst τ := by
    intro τ hτ
    obtain ⟨hτ₀, hsu⟩ := hmod τ hτ
    rcases hg with rfl | rfl
    · exact hbound τ hτ₀
    · rw [hbound τ hτ₀, hsu]
  have hsome := hrw.isSome_find? (s := .param p) (by simp [hs])
  obtain ⟨s₁, hs₁⟩ := Option.isSome_iff_exists.1 hsome
  obtain ⟨hσ₀, hsu⟩ := hmod σ ((models_core_rebind (hrw.wf hm) hs₁ heq).1 hσ)
  exact ⟨hσ₀, (hbound σ hσ₀).trans hsu⟩

theorem mostGeneral_eq_or (t u : Ty) : t.mostGeneral u = t ∨ t.mostGeneral u = u := by
  rw [Ty.mostGeneral]
  split
  · exact .inl rfl
  · exact .inr rfl

theorem models_core_free (hs : m.find? (.param p) = none)
    (hσ : Models σ (Bindings.core (m.insert (.param p) t))) :
    Models σ m.core ∧ σ p = t.core.inst σ := by
  rw [Bindings.core, Table.mapValues_insert] at hσ
  exact (models_insert_free (by rw [find?_core, hs]; rfl)).1 hσ

theorem StepCase.models_core {o : Outcome} (hc : StepCase rec m t u o) (hrec : Equates A rec)
    (hplain : ∀ x, A x → x.isWildcard = false ∧ x ≠ .null) (hm : m.Wf) (hA : m.Closed A) (ht : A t)
    (hu : A u) (h : o = .assigned m') (hσ : Models σ m'.core) :
    Models σ m.core ∧ t.core.inst σ = u.core.inst σ := by
  cases hc with
  | same =>
    cases h
    exact ⟨hσ, rfl⟩
  | @followRight t s p _ hs =>
    obtain ⟨m₁, h₁, rfl⟩ := Outcome.rebind_eq_assigned h
    have hsA := hA.bound _ s hu hs
    have hmod := models_core_follow (u := t) hm hs (hrec.rewrites hA ht hsA h₁)
      (fun τ hτ => (hrec.models hm hA ht hsA h₁ hτ).imp_right Eq.symm)
      (mostGeneral_eq_or t s).symm hσ
    exact hmod.imp_right Eq.symm
  | bindRight _ hs =>
    cases h
    exact (models_core_free hs hσ).imp_right Eq.symm
  | @followLeft u s p _ _ hs =>
    obtain ⟨m₁, h₁, rfl⟩ := Outcome.rebind_eq_assigned h
    have hsA := hA.bound _ s ht hs
    exact models_core_follow hm hs (hrec.rewrites hA hsA hu h₁)
      (fun τ hτ => hrec.models hm hA hsA hu h₁ hτ) (mostGeneral_eq_or s u) hσ
  | bindLeft _ _ hs =>
    cases h
    exact models_core_free hs hσ
  | shape hne _ _ =>
    cases Ty.shapePair t u with
    | parts hs =>
      rw [stepShape_of_sameHead rec m hs] at h
      rw [hs.core_inst_eq_iff]
      exact hrec.pairwise hm hA (fun c hc => hA.child t c ht hs.inner?_eq_none hc)
        (fun c hc => hA.child u c hu hs.symm.inner?_eq_none hc) h hσ
    | wrapper p u =>
      rw [stepShape_wrapper, if_neg (by simp [(hplain u hu).1])] at h
      have hp := hA.child _ (.prim p) ht rfl (by simp [Ty.children])
      exact hrec.models (t := .prim p) hm hA hp hu h hσ
    | other hs hw =>
      rw [stepShape_eq_accept rec m hs hw, ← Ty.fits_eq_admits hne hs hw] at h
      obtain ⟨hfits, rfl⟩ := accept_eq_assigned h
      refine ⟨hσ, ?_⟩
      rw [← Ty.core_base t, ← Ty.core_base u,
        base_eq_of_fits (hplain t ht) (hplain u hu).1 hs hfits]

theorem equates_assignIn (hplain : ∀ x, A x → x.isWildcard = false ∧ x ≠ .null) (n : Nat) :
    Equates A (assignIn n) := by
  induction n with
  | zero => exact ⟨assignIn_rewrites, fun _ _ _ _ h => by cases h⟩
  | succ n ih => exact ⟨assignIn_rewrites, (step_case _ _ _ _).models_core ih hplain⟩

theorem equates_rigid (m : Bindings) (n : Nat) : Equates m.Rigid (assignIn n) :=
  equates_assignIn (fun x hx => hx x .refl) n

end Rigid

theorem ParamKeys.params_solution (hk : m.ParamKeys) (p : String) :
    (m.solution true p).params = [] :=
  hk.params_subst (.param p)

theorem Wf.models_core_solution (hm : m.Wf) :
    Models (fun p => (m.solution true p).core) m.core := by
  intro p t ht
  rw [find?_core, Option.map_eq_some_iff] at ht
  obtain ⟨s, hs, rfl⟩ := ht
  rw [← Ty.core_inst, ← hm.models_solution_toDyn p s hs]

/-- What the new bindings make of two assigned types is assignable without any bindings, as long as
the parameters on the left are free, occur once and are out of reach of the right, or the new
bindings keep all that parameters were bound to when they were met, or neither wildcards nor `null`
occur. -/
theorem assign?_justified {m : Bindings} (hk : m.ParamKeys) (ha : m.Acyclic) :
    (∀ t u m', m.MeetsOnce [t] [u] ∨ m.Assigns m'.Keeps [t] [u] m' ∨ m.Rigid t ∧ m.Rigid u →
      m.assign? t u = some m' →
      (Bindings.assign? {} (m'.subst true t) (m'.subst true u)).isSome = true) ∧
    ∀ ts us m', m.MeetsOnce ts us ∨ m.Assigns m'.Keeps ts us m' ∨
        (∀ t ∈ ts, m.Rigid t) ∧ (∀ u ∈ us, m.Rigid u) →
      m.assignAll? ts us = some m' →
      List.Forall₂ (fun t u =>
        (Bindings.assign? {} (m'.subst true t) (m'.subst true u)).isSome = true) ts us := by
  have hm : m.Wf := ⟨hk, ha⟩
  constructor
  · intro t u m' hcase h
    have hm' := hm.assign? h
    rw [assign?, Outcome.toOption_eq_some] at h
    rw [isSome_assign?_subst hm']
    rcases hcase with hmeets | hassigns | ⟨ht, hu⟩
    · exact ((justifies_assignIn hm'.keys.params_solution _).compares hm (.all m) trivial trivial
        hmeets h hm'.models_solution_toDyn.admits).2.fits
    · exact (List.forall₂_cons.1 (hassigns.fits fun _ _ hp => hp.replaces hm'.keys)).1
    · apply Ty.fits_of_core_eq
      rw [Ty.core_inst, Ty.core_inst]
      exact ((equates_rigid m _).models hm m.closed_rigid ht hu h hm'.models_core_solution).2
  · intro ts us m' hcase h
    have hm' := hm.assignAll? h
    rw [assignAll?, Outcome.toOption_eq_some] at h
    simp only [isSome_assign?_subst hm']
    rcases hcase with hmeets | hassigns | ⟨hts, hus⟩
    · have hcmps := ((justifies_assignIn hm'.keys.params_solution _).pairwise hm (.all m)
        (fun _ _ => trivial) (fun _ _ => trivial) hmeets h hm'.models_solution_toDyn.admits).2
      exact hcmps.imp fun _ _ hcmp => hcmp.fits
    · exact hassigns.fits fun _ _ hp => hp.replaces hm'.keys
    · refine Ty.forall₂_imp ?_
        ((equates_rigid m _).pairwise hm m.closed_rigid hts hus h hm'.models_core_solution).2
      intro t _ u _ heq
      apply Ty.fits_of_core_eq
      rwa [Ty.core_inst, Ty.core_inst]

theorem assign?_justified_of_wrapper_and_widened :
    let m : Bindings := Table.insert {} (.param "A") (.wrapper .int)
    (∃ m', m.assign? (.map (.param "A") (.param "A")) (.map .int (.wrapper .int)) = some m' ∧
      (Bindings.assign? {} (m'.subst true (.map (.param "A") (.param "A")))
        (m'.subst true (.map .int (.wrapper .int)))).isSome = true) ∧
    (∃ m', m.assign? (.map (.param "C") (.param "D")) (.map .int .dyn) = some m' ∧
      (Bindings.assign? {} (m'.subst true (.map (.param "C") (.param "D")))
        (m'.subst true (.map .int .dyn))).isSome = true) ∧
    (∃ m', m.assignAll? [.null, .dyn] [.param "B", .param "B"] = some m' ∧
      m'.subst true (.param "B") = .dyn ∧
      (Bindings.assign? {} (m'.subst true .null) (m'.subst true (.param "B"))).isSome = true) ∧
    ∃ m', m.assignAll? [.param "C", .param "C"] [.int, .dyn] = some m' ∧
      m'.subst true (.param "C") = .dyn ∧
      (Bindings.assign? {} (m'.subst true (.param "C")) (m'.subst true .int)).isSome = true := by
  intro m
  have hm : m.Wf := Wf.empty.insert (Wf.empty.mentions_eq_false_iff.1 (by decide))
  let met : List Ty := [.map (.param "A") (.param "A"), .map .int (.wrapper .int), .param "A",
    .wrapper .int, .int]
  have hchild : ∀ t ∈ met, t.inner? = none → ∀ c ∈ t.children, c ∈ met := by decide
  have hbound : ∀ t ∈ met, ∀ u ∈ m.find? t, u ∈ met := by decide
  have hr : ∀ t ∈ met, m.Rigid t := fun t ht =>
    rigid_of_closed ⟨fun t c ht hi hc => hchild t ht hi c hc, fun t u ht hu => hbound t ht u hu⟩
      (by decide) ht
  obtain ⟨hone, hall⟩ := assign?_justified hm.keys hm.acyclic
  refine ⟨?_, ?_, ?_, ?_⟩
  · exact ⟨_, rfl, hone (.map (.param "A") (.param "A")) (.map .int (.wrapper .int)) _
      (.inr (.inr ⟨hr _ (by decide), hr _ (by decide)⟩)) rfl⟩
  · refine ⟨_, rfl, hone (.map (.param "C") (.param "D")) (.map .int .dyn) _ (.inl ?_) rfl⟩
    refine ⟨by decide, by decide, fun p _ u hu => ?_⟩
    cases List.mem_singleton.1 hu
    exact not_below_of_closed hm.keys rfl
  · refine ⟨_, rfl, rfl, ?_⟩
    have hpair := hall [.null, .dyn] [.param "B", .param "B"] _
      (.inl (.of_closed (by simp [Ty.params]))) rfl
    exact (List.forall₂_cons.1 hpair).1
  · have hassign : m.assignAll? [.param "C", .param "C"] [.int, .dyn] =
        some ((m.insert (.param "C") .int).insert (.param "C") .dyn) := rfl
    have hk := (hm.assignAll? hassign).keys
    have hkeep : ∀ t, Keeps ((m.insert (.param "C") .int).insert (.param "C") .dyn) "C" t :=
      fun t => keeps_of_lessSpecific hk rfl
    have hsteps : m.Assigns (Keeps ((m.insert (.param "C") .int).insert (.param "C") .dyn))
        [.param "C", .param "C"] [.int, .dyn]
        ((m.insert (.param "C") .int).insert (.param "C") .dyn) :=
      .cons (.bindLeft (by decide) (.inl rfl) (by decide) (by decide) (hkeep _))
        (.cons (.followLeft (by decide) (.inl rfl) rfl (hkeep _)
          (.accept (by decide) (.inl rfl) (.inl rfl) (by rintro ⟨⟩) rfl)) .nil)
    exact ⟨_, hassign, rfl, (List.forall₂_cons.1 (hall _ _ _ (.inr (.inl hsteps)) hassign)).1⟩

/-- With a parameter on the left, each of `null`, `error` and `dyn` can make it leave the type that
an earlier occurrence was compared with. -/
theorem assign?_unjustified :
    (∃ m', Bindings.assign? {} (.map (.param "A") (.param "A"))
        (.map .null (.message "acme.Account")) = some m' ∧
      Bindings.assign? {} (m'.subst true (.map (.param "A") (.param "A")))
        (m'.subst true (.map .null (.message "acme.Account"))) = none) ∧
    (∃ m', Bindings.assignAll? {} [.param "A", .param "A", .param "A"] [.int, .error, .string]
        = some m' ∧
      Bindings.assign? {} (m'.subst true (.param "A")) (m'.subst true .int) = none) ∧
    ∃ m', Bindings.assignAll? {} [.param "A", .param "A", .param "A"]
        [.map .int .dyn, .map .dyn .int, .map .string .dyn] = some m' ∧
      Bindings.assign? {} (m'.subst true (.param "A")) (m'.subst true (.map .int .dyn)) = none := by
  refine ⟨⟨_, rfl, rfl⟩, ⟨_, rfl, rfl⟩, ⟨_, rfl, rfl⟩⟩

end Bindings

end ExprTyping
