import ExprTyping.Proofs.Depth
import Mathlib.Data.Set.Function

namespace ExprTyping

namespace Ty

variable {F : Set String} {φ : String → String} {c t u : Ty}

def rename (φ : String → String) : Ty → Ty := inst fun p => .param (φ p)

def Over (F : Set String) (t : Ty) : Prop := ∀ p ∈ t.params, p ∈ F

theorem rename_congr {ψ : String → String} (h : ∀ p ∈ t.params, φ p = ψ p) :
    t.rename φ = t.rename ψ :=
  inst_congr fun p hp => by rw [h p hp]

theorem rename_rename (φ ψ : String → String) (t : Ty) :
    (t.rename φ).rename ψ = t.rename (ψ ∘ φ) :=
  inst_inst _ _ t

@[simp] theorem rename_id : rename id = id := funext inst_param

theorem rename_of_params_eq_nil (h : t.params = []) : t.rename φ = t :=
  inst_eq_self h _

theorem mem_params_rename {p : String} : p ∈ (t.rename φ).params ↔ ∃ q ∈ t.params, φ q = p := by
  simp [rename, mem_params_inst, params, eq_comm]

theorem params_rename_eq_nil_iff : (t.rename φ).params = [] ↔ t.params = [] := by
  simp [List.eq_nil_iff_forall_not_mem, mem_params_rename]

theorem Over.mono {G : Set String} (h : t.Over F) (hFG : F ⊆ G) : t.Over G :=
  fun p hp => hFG (h p hp)

theorem over_of_params_eq_nil (h : t.params = []) : t.Over F := by
  simp [Over, h]

theorem over_param_iff {p : String} : (param p).Over F ↔ p ∈ F := by
  simp [Over, params]

theorem Over.rename (h : t.Over F) : (t.rename φ).Over (φ '' F) := by
  intro p hp
  obtain ⟨q, hq, rfl⟩ := mem_params_rename.1 hp
  exact ⟨q, h q hq, rfl⟩

theorem Over.of_mem_children (h : t.Over F) (hc : c ∈ t.children) : c.Over F :=
  fun p hp => h p (mem_params_of_mem_children hc hp)

theorem children_rename (ht : t.isParam = false) :
    (t.rename φ).children = t.children.map (rename φ) :=
  children_inst ht _

theorem sameHead_rename_iff : SameHead (t.rename φ) (u.rename φ) ↔ SameHead t u := by
  have hright : ∀ {s v : Ty}, SameHead s (v.rename φ) → SameHead s v := by
    intro s v h
    cases v <;> cases h <;> constructor
  exact ⟨fun h => (hright (hright h).symm).symm, fun h => h.inst_both _⟩

theorem rename_eq_wrapper_iff {p : Prim} : t.rename φ = .wrapper p ↔ t = .wrapper p := by
  cases t <;> simp [rename, inst]

theorem isWildcard_rename (t : Ty) : (t.rename φ).isWildcard = t.isWildcard := by
  cases t <;> rfl

theorem admits_rename (t u : Ty) : (t.rename φ).admits (u.rename φ) = t.admits u := by
  cases t <;> cases u <;> rfl

theorem rename_inj (hφ : Set.InjOn φ F) (ht : t.Over F) (hu : u.Over F) :
    t.rename φ = u.rename φ ↔ t = u := by
  -- a renaming that is injective on the parameters can be undone
  have hundo : ∀ s : Ty, s.Over F → (s.rename φ).rename (Function.invFunOn φ F) = s := by
    intro s hs
    rw [rename, rename, inst_inst]
    refine (inst_congr fun p hp => ?_).trans (inst_param s)
    rw [inst, hφ.leftInvOn_invFunOn (hs p hp)]
  constructor
  · intro h
    rw [← hundo t ht, h, hundo u hu]
  · rintro rfl
    rfl

theorem lessSpecificAll_rename (ts us : List Ty) (hus : ∀ u ∈ us, u.Over F)
    (h : ∀ t ∈ ts, ∀ u : Ty, u.Over F → (t.rename φ).lessSpecific (u.rename φ) = t.lessSpecific u) :
    lessSpecificAll (ts.map (rename φ)) (us.map (rename φ)) = lessSpecificAll ts us := by
  induction ts generalizing us with
  | nil => cases us <;> rfl
  | cons t ts ih =>
    cases us with
    | nil => rfl
    | cons u us =>
      rw [List.forall_mem_cons] at h hus
      simp only [List.map_cons, lessSpecificAll, h.1 u hus.1, ih us hus.2 h.2]

theorem lessSpecific_rename (hφ : Set.InjOn φ F) (ht : t.Over F) (hu : u.Over F) :
    (t.rename φ).lessSpecific (u.rename φ) = t.lessSpecific u := by
  have hchild : ∀ {u c : Ty}, u.Over F → c ∈ u.children → c.Over F := Over.of_mem_children
  induction t generalizing u with
  | typeOf t =>
    have hbeq : ((Ty.typeOf t).rename φ == u.rename φ) = (Ty.typeOf t == u) := by
      rw [Bool.eq_iff_iff, beq_iff_eq, beq_iff_eq, rename_inj hφ ht hu]
    cases u <;> first | rfl | exact hbeq
  | list t ih =>
    cases u with
    | list u => exact ih (hchild ht (by simp [children])) (hchild hu (by simp [children]))
    | _ => rfl
  | map k v ihk ihv =>
    cases u with
    | map l w =>
      have hk := ihk (hchild ht (by simp [children])) (hchild hu (c := l) (by simp [children]))
      have hv := ihv (hchild ht (by simp [children])) (hchild hu (c := w) (by simp [children]))
      simp only [rename, inst, lessSpecific] at hk hv ⊢
      rw [hk, hv]
    | _ => rfl
  | abstract n ts ih =>
    cases u with
    | abstract k us =>
      have hall := lessSpecificAll_rename ts us (fun u hm => hchild hu hm)
        fun t hm u hu => ih t hm (hchild ht hm) hu
      simp only [rename, inst, lessSpecific, instAll_eq_map] at hall ⊢
      rw [hall]
    | _ => rfl
  | function r ts ihr ih =>
    cases u with
    | function q us =>
      have hr := ihr (hchild ht (by simp [children])) (hchild hu (c := q) (by simp [children]))
      have hall := lessSpecificAll_rename ts us
        (fun u hm => hchild hu (by simp [children, hm]))
        fun t hm u hu => ih t hm (hchild ht (by simp [children, hm])) hu
      simp only [rename, inst, lessSpecific, instAll_eq_map] at hall hr ⊢
      rw [hall, hr]
    | _ => rfl
  | _ => cases u <;> rfl

theorem mostGeneral_rename (hφ : Set.InjOn φ F) (ht : t.Over F) (hu : u.Over F) :
    (t.rename φ).mostGeneral (u.rename φ) = (t.mostGeneral u).rename φ := by
  rw [mostGeneral, lessSpecific_rename hφ ht hu, mostGeneral, apply_ite (rename φ)]

end Ty

namespace Bindings

open Relation

variable {F : Set String} {φ : String → String} {m m' : Bindings} {p : String} {t u : Ty}

theorem closed_over (hk : m.ParamKeys)
    (hF : ∀ p ∈ F, ∀ t, m.find? (.param p) = some t → t.Over F) : m.Closed (Ty.Over F) where
  child _ _ ht _ hc := ht.of_mem_children hc
  bound t u ht hu := by
    obtain ⟨p, rfl⟩ := hk t u hu
    exact hF p (Ty.over_param_iff.1 ht) u hu

/-- Along `φ` the parameters of `F` are bound alike, and no binding leads out of `F`. -/
structure Agree (F : Set String) (φ : String → String) (m m' : Bindings) : Prop where
  wf : m.Wf
  wf' : m'.Wf
  inj : Set.InjOn φ F
  find? : ∀ p ∈ F, m'.find? (.param (φ p)) = (m.find? (.param p)).map (Ty.rename φ)
  closed : ∀ p ∈ F, ∀ t, m.find? (.param p) = some t → t.Over F

namespace Agree

theorem reaches (h : Agree F φ m m') (hp : p ∈ F) {q : String}
    (hpq : ReflTransGen m.Points p q) : q ∈ F ∧ ReflTransGen m'.Points (φ p) (φ q) := by
  induction hpq with
  | refl => exact ⟨hp, .refl⟩
  | tail _ hstep ih =>
    obtain ⟨t, ht, hq⟩ := hstep
    refine ⟨h.closed _ ih.1 t ht _ hq, ih.2.tail ⟨t.rename φ, ?_, ?_⟩⟩
    · rw [h.find? _ ih.1, ht, Option.map_some]
    · exact Ty.mem_params_rename.2 ⟨_, hq, rfl⟩

theorem exists_reaches (h : Agree F φ m m') (hp : p ∈ F) {r : String}
    (hpr : ReflTransGen m'.Points (φ p) r) : ∃ q ∈ F, φ q = r ∧ ReflTransGen m.Points p q := by
  induction hpr with
  | refl => exact ⟨p, hp, rfl, .refl⟩
  | tail _ hstep ih =>
    obtain ⟨q, hq, rfl, hpq⟩ := ih
    obtain ⟨t', ht', hr⟩ := hstep
    rw [h.find? q hq] at ht'
    obtain ⟨t, ht, rfl⟩ := Option.map_eq_some_iff.1 ht'
    obtain ⟨r, hrt, rfl⟩ := Ty.mem_params_rename.1 hr
    exact ⟨r, h.closed q hq t ht r hrt, rfl, hpq.tail ⟨t, ht, hrt⟩⟩

theorem below_iff (h : Agree F φ m m') (ht : t.Over F) (hp : p ∈ F) :
    m'.Below (t.rename φ) (.param (φ p)) ↔ m.Below t (.param p) := by
  constructor
  · intro hb
    obtain ⟨q', hq', hqp⟩ := hb.exists_reaches h.wf'.keys
    obtain ⟨q, hq, rfl⟩ := Ty.mem_params_rename.1 hq'
    obtain ⟨r, hr, hrp, hqr⟩ := h.exists_reaches (ht q hq) hqp
    rw [h.inj hr hp hrp] at hqr
    exact .trans (.of_mem_params hq) (.of_reaches hqr)
  · intro hb
    obtain ⟨q, hq, hqp⟩ := hb.exists_reaches h.wf.keys
    have hq' : φ q ∈ (t.rename φ).params := Ty.mem_params_rename.2 ⟨q, hq, rfl⟩
    exact .trans (.of_mem_params hq') (.of_reaches (h.reaches (ht q hq) hqp).2)

theorem mentions (h : Agree F φ m m') (ht : t.Over F) (hp : p ∈ F) :
    m'.mentions (.param (φ p)) (t.rename φ) = m.mentions (.param p) t := by
  rw [Bool.eq_iff_iff, h.wf'.mentions_iff, h.wf.mentions_iff, h.below_iff ht hp]

theorem insert (h : Agree F φ m m') (hp : p ∈ F) (ht : t.Over F)
    (hn : m.mentions (.param p) t = false) :
    Agree F φ (m.insert (.param p) t) (m'.insert (.param (φ p)) (t.rename φ)) where
  wf := h.wf.insert (h.wf.mentions_eq_false_iff.1 hn)
  wf' := h.wf'.insert (h.wf'.mentions_eq_false_iff.1 (h.mentions ht hp ▸ hn))
  inj := h.inj
  find? q hq := by
    by_cases hpq : p = q
    · subst hpq
      simp
    · have hne : Ty.param p ≠ .param q := by simp [hpq]
      have hne' : Ty.param (φ p) ≠ .param (φ q) := by simpa using (h.inj.eq_iff hp hq).not.2 hpq
      rw [Table.find?_insert_of_ne _ _ hne, Table.find?_insert_of_ne _ _ hne', h.find? q hq]
  closed q hq u hu := by
    rw [Table.find?_insert] at hu
    split at hu
    · cases hu
      exact ht
    · exact h.closed q hq u hu

theorem rebind (h : Agree F φ m m') (hp : p ∈ F) (ht : t.Over F) :
    Agree F φ (m.rebind (.param p) t) (m'.rebind (.param (φ p)) (t.rename φ)) := by
  rw [Bindings.rebind, Bindings.rebind, h.mentions ht hp]
  cases hn : m.mentions (.param p) t with
  | true => exact h
  | false => exact h.insert hp ht hn

theorem subst (h : Agree F φ m m') (b : Bool) (ht : t.Over F) :
    m'.subst b (t.rename φ) = (m.subst b t).rename φ := by
  have hinst : ∀ s : Ty, (s.rename φ).inst (m'.solution b) =
      s.inst fun q => m'.solution b (φ q) := Ty.inst_inst _ _
  have hsolution : ∀ q ∈ t.params, q ∈ F →
      m'.solution b (φ q) = (m.solution b q).rename φ := by
    refine h.wf.forall_params ?_ ?_
    · intro q _ hs hq
      have hs' : m'.find? (.param (φ q)) = none := by rw [h.find? q hq, hs, Option.map_none]
      rw [solution, solution, h.wf'.keys.subst_free hs', h.wf.keys.subst_free hs]
      cases b <;> rfl
    · intro q s _ hs ih hq
      have hs' : m'.find? (.param (φ q)) = some (s.rename φ) := by
        rw [h.find? q hq, hs, Option.map_some]
      rw [solution, solution, h.wf'.subst_bound hs', h.wf.subst_bound hs,
        h.wf'.keys.subst_eq_inst, h.wf.keys.subst_eq_inst, hinst, Ty.rename, Ty.inst_inst]
      exact Ty.inst_congr fun r hr => ih r hr (h.closed q hq s hs r hr)
  rw [h.wf'.keys.subst_eq_inst, h.wf.keys.subst_eq_inst, hinst, Ty.rename, Ty.inst_inst]
  exact Ty.inst_congr fun q hq => hsolution q hq (ht q hq)

theorem subst_true (h : Agree F φ m m') (ht : t.Over F) :
    m'.subst true (t.rename φ) = m.subst true t := by
  rw [h.subst true ht, Ty.rename_of_params_eq_nil (h.wf.keys.params_subst t)]

theorem over_subst (h : Agree F φ m m') (ht : t.Over F) : (m.subst false t).Over F := by
  intro p hp
  obtain ⟨q, hq, hqp⟩ := (h.wf.mem_params_subst p hp).1.exists_reaches h.wf.keys
  exact (h.reaches (ht q hq) hqp).1

theorem closed_left (h : Agree F φ m m') : m.Closed (Ty.Over F) := closed_over h.wf.keys h.closed

theorem closed_right (h : Agree F φ m m') : m'.Closed (Ty.Over (φ '' F)) := by
  refine closed_over h.wf'.keys ?_
  rintro _ ⟨p, hp, rfl⟩ u hu
  rw [h.find? p hp] at hu
  obtain ⟨s, hs, rfl⟩ := Option.map_eq_some_iff.1 hu
  exact (h.closed p hp s hs).rename

end Agree

/-- Both runs are refused, or both end in bindings that agree. A run that is out of depth says
nothing of the other. -/
inductive Outcome.Agree (F : Set String) (φ : String → String) : Outcome → Outcome → Prop
  | assigned {m m' : Bindings} : Bindings.Agree F φ m m' → Agree F φ (.assigned m) (.assigned m')
  | refused : Agree F φ .refused .refused
  | exhaustedLeft {o : Outcome} : Agree F φ .exhausted o
  | exhaustedRight {o : Outcome} : Agree F φ o .exhausted

theorem Outcome.Agree.rebind {o o' : Outcome} (h : Outcome.Agree F φ o o') (hp : p ∈ F)
    (ht : t.Over F) :
    Outcome.Agree F φ (o.rebind (.param p) t) (o'.rebind (.param (φ p)) (t.rename φ)) := by
  cases h with
  | assigned h => exact .assigned (h.rebind hp ht)
  | refused => exact .refused
  | exhaustedLeft => exact .exhaustedLeft
  | exhaustedRight => exact .exhaustedRight

def Matching (F : Set String) (φ : String → String) (rec rec' : Bindings → Ty → Ty → Outcome) :
    Prop :=
  ∀ m m' t u, Agree F φ m m' → t.Over F → u.Over F →
    Outcome.Agree F φ (rec m t u) (rec' m' (t.rename φ) (u.rename φ))

section Steps

variable {rec rec' : Bindings → Ty → Ty → Outcome} (hrec : Matching F φ rec rec')

include hrec

theorem Matching.pairwise {ts us : List Ty} (h : Agree F φ m m') (hts : ∀ t ∈ ts, t.Over F)
    (hus : ∀ u ∈ us, u.Over F) : Outcome.Agree F φ (pairwise rec m ts us)
      (pairwise rec' m' (ts.map (Ty.rename φ)) (us.map (Ty.rename φ))) := by
  induction ts generalizing m m' us with
  | nil =>
    cases us with
    | nil => exact .assigned h
    | cons u us => exact .refused
  | cons t ts ih =>
    cases us with
    | nil => exact .refused
    | cons u us =>
      rw [List.forall_mem_cons] at hts hus
      have hhead := hrec m m' t u h hts.1 hus.1
      simp only [List.map_cons, Bindings.pairwise]
      generalize rec m t u = o, rec' m' (t.rename φ) (u.rename φ) = o' at hhead ⊢
      cases hhead with
      | assigned h => exact ih h hts.2 hus.2
      | refused => exact .refused
      | exhaustedLeft => exact .exhaustedLeft
      | exhaustedRight => exact .exhaustedRight

theorem Matching.stepShape (h : Agree F φ m m') (ht : t.Over F) (hu : u.Over F) :
    Outcome.Agree F φ (stepShape rec m t u) (stepShape rec' m' (t.rename φ) (u.rename φ)) := by
  cases Ty.shapePair t u with
  | parts hs =>
    rw [stepShape_of_sameHead rec m hs, stepShape_of_sameHead rec' m' (Ty.sameHead_rename_iff.2 hs),
      Ty.children_rename hs.isParam_eq_false, Ty.children_rename hs.symm.isParam_eq_false]
    exact hrec.pairwise h (fun c hc => ht.of_mem_children hc) fun c hc => hu.of_mem_children hc
  | wrapper p u =>
    have hprim := hrec m m' (.prim p) u h (Ty.over_of_params_eq_nil rfl) hu
    rw [Ty.rename_eq_wrapper_iff.2 rfl, stepShape_wrapper, stepShape_wrapper, Ty.isWildcard_rename]
    split
    · exact .assigned h
    · exact hprim
  | other hs hw =>
    have hs' : ¬ Ty.SameHead (t.rename φ) (u.rename φ) := mt Ty.sameHead_rename_iff.1 hs
    have hw' : ∀ p, t.rename φ ≠ .wrapper p := fun p => mt Ty.rename_eq_wrapper_iff.1 (hw p)
    rw [stepShape_eq_accept rec m hs hw, stepShape_eq_accept rec' m' hs' hw', Ty.admits_rename]
    cases t.admits u with
    | true => exact .assigned h
    | false => exact .refused

theorem Matching.stepLeft (h : Agree F φ m m') (ht : t.Over F) (hu : u.Over F) :
    Outcome.Agree F φ (stepLeft rec m t u) (stepLeft rec' m' (t.rename φ) (u.rename φ)) := by
  have hshape := hrec.stepShape h ht hu
  cases t with
  | param p =>
    have hp : p ∈ F := Ty.over_param_iff.1 ht
    have hfind := h.find? p hp
    have hmen := h.mentions hu hp
    simp only [Ty.rename, Ty.inst] at hmen hshape ⊢
    simp only [Bindings.stepLeft, slot, hfind, hmen]
    cases hs : m.find? (.param p) with
    | some s =>
      have hover := h.closed p hp s hs
      have hgeneral : (s.mostGeneral u).Over F := mostGeneral_of_both hover hu
      have hnext := (hrec m m' s u h hover hu).rebind hp hgeneral
      rwa [← Ty.mostGeneral_rename h.inj hover hu] at hnext
    | none =>
      cases hm : m.mentions (.param p) u with
      | true => exact hshape
      | false => exact .assigned (h.insert hp hu hm)
  | _ => exact hshape

theorem Matching.step (h : Agree F φ m m') (ht : t.Over F) (hu : u.Over F) :
    Outcome.Agree F φ (step rec m t u) (step rec' m' (t.rename φ) (u.rename φ)) := by
  have hleft := hrec.stepLeft h ht hu
  rw [Bindings.step, Bindings.step]
  by_cases heq : t = u
  · rw [if_pos heq, if_pos (heq ▸ rfl)]
    exact .assigned h
  rw [if_neg heq, if_neg ((Ty.rename_inj h.inj ht hu).not.2 heq)]
  cases u with
  | param p =>
    have hp : p ∈ F := Ty.over_param_iff.1 hu
    have hfind := h.find? p hp
    have hmen := h.mentions ht hp
    simp only [Ty.rename, Ty.inst] at hmen hleft ⊢
    simp only [slot, hfind, hmen]
    cases hs : m.find? (.param p) with
    | some s =>
      have hover := h.closed p hp s hs
      have hgeneral : (t.mostGeneral s).Over F := mostGeneral_of_both ht hover
      have hnext := (hrec m m' t s h ht hover).rebind hp hgeneral
      rwa [← Ty.mostGeneral_rename h.inj ht hover] at hnext
    | none =>
      cases hm : m.mentions (.param p) t with
      | true => exact hleft
      | false => exact .assigned (h.insert hp ht hm)
  | _ => exact hleft

end Steps

theorem matching_assignIn (n n' : Nat) : Matching F φ (assignIn n) (assignIn n') := by
  induction n generalizing n' with
  | zero => exact fun _ _ _ _ _ _ _ => .exhaustedLeft
  | succ n ih =>
    cases n' with
    | zero => exact fun _ _ _ _ _ _ _ => .exhaustedRight
    | succ n' => exact fun m m' t u => (ih n').step

theorem Outcome.Agree.toOption {o o' : Outcome} (h : Outcome.Agree F φ o o')
    (ho : o ≠ .exhausted) (ho' : o' ≠ .exhausted) :
    Option.Rel (Bindings.Agree F φ) o.toOption o'.toOption := by
  cases h with
  | assigned h => exact .some h
  | refused => exact .none
  | exhaustedLeft => exact absurd rfl ho
  | exhaustedRight => exact absurd rfl ho'

theorem Agree.assign? (h : Agree F φ m m') (ht : t.Over F) (hu : u.Over F) :
    Option.Rel (Agree F φ) (m.assign? t u) (m'.assign? (t.rename φ) (u.rename φ)) :=
  (matching_assignIn _ _ m m' t u h ht hu).toOption (h.wf.assign_ne_exhausted t u)
    (h.wf'.assign_ne_exhausted _ _)

theorem Agree.assignAll? {ts us : List Ty} (h : Agree F φ m m') (hts : ∀ t ∈ ts, t.Over F)
    (hus : ∀ u ∈ us, u.Over F) : Option.Rel (Agree F φ) (m.assignAll? ts us)
      (m'.assignAll? (ts.map (Ty.rename φ)) (us.map (Ty.rename φ))) :=
  ((matching_assignIn _ _).pairwise h hts hus).toOption (h.wf.assignAll_ne_exhausted ts us)
    (h.wf'.assignAll_ne_exhausted _ _)

end Bindings

end ExprTyping
