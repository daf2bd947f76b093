import ExprTyping.Proofs.LexicalScope
import ExprTyping.Proofs.MacroSteps
import ExprTyping.Proofs.Wildcards

namespace ExprTyping

open Checker State Bindings Text

section Ranges

def Ty.element? : Ty → Option Ty
  | .list t => some t
  | .map k _ => some k
  | .dyn => some .dyn
  | .error => some .dyn
  | _ => none

variable {t u : Ty} {q : String} {m : Bindings} {s s' : State} {id : Int}

theorem Ty.element?_inst (σ : String → Ty) (h : t.element? = some u) :
    (t.inst σ).element? = some (u.inst σ) := by
  cases t <;> cases h <;> rfl

theorem Ty.mem_params_of_element? (h : t.element? = some u) (hq : q ∈ u.params) : q ∈ t.params := by
  cases t with
  | list t =>
    cases h
    exact hq
  | map k v =>
    cases h
    exact List.mem_append_left _ hq
  | dyn =>
    cases h
    exact hq
  | error =>
    cases h
    cases hq
  | _ => cases h

theorem Bindings.assign?_self (m : Bindings) (t : Ty) : m.assign? t t = some m :=
  Outcome.toOption_eq_some.2 (m.assign_self t)

theorem Checker.iterType_inv (hm : s.bindings.Wf)
    (ht : ∀ q ∈ t.params, s.bindings.find? (.param q) = none) (h : iterType s id t = (u, s'))
    (hr : s'.reports = []) : s' = s ∧ t.element? = some u ∨
      ∃ q, t = .param q ∧ u = .dyn ∧
        s' = { s with bindings := s.bindings.insert (.param q) .dyn } := by
  cases t with
  | list t =>
    cases h
    exact .inl ⟨rfl, rfl⟩
  | map k v =>
    cases h
    exact .inl ⟨rfl, rfl⟩
  | dyn =>
    simp only [iterType, forceDyn, unify, assign?_self] at h
    cases h
    exact .inl ⟨rfl, rfl⟩
  | error =>
    have herror : s.bindings.assign? .dyn .error = some s.bindings :=
      Outcome.toOption_eq_some.2 (hm.assign_wildcard rfl rfl (.inl rfl))
    simp only [iterType, forceDyn, unify, herror] at h
    cases h
    exact .inl ⟨rfl, rfl⟩
  | param q =>
    have hfree := ht q (List.mem_singleton_self q)
    have hbind : s.bindings.assign? .dyn (.param q) = some (s.bindings.insert (.param q) .dyn) :=
      Outcome.toOption_eq_some.2 (hm.assign_free_right rfl hfree (hm.mentions_wildcard rfl q))
    simp only [iterType, forceDyn, unify, hbind] at h
    cases h
    exact .inr ⟨q, rfl, rfl, rfl⟩
  | _ =>
    cases h
    simp [report] at hr

end Ranges

section Loops

variable {env : Env} {s s' : State} {e e' range step : Expr} {x : String} {id i j k l : Int}

theorem Env.Plain.sound (h : env.Plain) : TypeInvariant.variablesInUse.Sound env {} := by
  refine TypeInvariant.SoundEnv.start ⟨fun name d hd => ?_, fun name f hf o ho => ?_,
    fun m f t ht => ?_⟩
  · exact over_inUse_zero_iff.2 (h.ident name d hd).2
  · obtain ⟨hscoped, hnames⟩ := h.overload name f hf o ho
    exact ⟨hnames, fun t ht => over_inUse_zero_iff.2 fun k hk => hnames k (hscoped t ht _ hk)⟩
  · exact Ty.over_of_params_eq_nil (h.field m f t ht)

theorem Checker.Completes.list_nil_inv (h : Completes env s (.list j []) e' s') :
    s'.bindings = s.bindings ∧ s'.nextVar = s.nextVar + 1 ∧
      s'.types.find? j = some (.list (freshVar s.nextVar)) := by
  cases h.rule with
  | list helems hf hset =>
    cases helems
    cases hf
    have hinert := inert_setType hset
    exact ⟨hinert.bindings, hinert.nextVar, (grows_setType hset).2.1⟩

theorem State.expect_inv {t : Ty} (hr : (s.expect id t).reports = []) :
    ∃ m, s.bindings.assign? (s.typeAt id) t = some m ∧
      s.expect id t = { s with bindings := m } := by
  cases h : s.bindings.assign? (s.typeAt id) t with
  | some m => exact ⟨m, rfl, by simp [expect, require, unify, h]⟩
  | none => simp [expect, require, unify, h, report] at hr

theorem State.expect_self {t : Ty} (h : s.types.find? id = some t) : s.expect id t = s := by
  simp [expect, require, unify, typeAt, h, assign?_self]

/-- What is known when a loop starts: `v` is free and occurs in none of the types, and the loop
variable has the type of the elements of the range. -/
structure Starts (v : String) (t u : Ty) (s s' : State) : Prop where
  free : s'.bindings.find? (.param v) = none
  avoids : s'.bindings.Avoids v
  elements : ∀ q ∈ u.params, s'.bindings.find? (.param q) = none ∧ q ≠ v
  range : ∀ σ, Models σ s'.bindings → (t.inst σ).element? = some (u.inst σ)
  nextVar : s'.nextVar = s.nextVar
  types : s'.types = s.types

theorem starts_iterType {t u : Ty} {s₁ s₂ : State} (hs : TypeInvariant.variablesInUse.Sound env s)
    (hb : s₁.bindings = s.bindings) (ht : t.Over (inUse s.nextVar))
    (h : iterType s₁ id (s₁.subst t) = (u, s₂)) (hr : s₂.reports = []) :
    Starts (varName s.nextVar) t u s₁ s₂ := by
  have hsubst : ∀ q ∈ (s₁.subst t).params,
      s₁.bindings.find? (.param q) = none ∧ q ≠ varName s.nextVar := by
    rw [State.subst, hb]
    intro q hq
    refine ⟨(hs.wf.mem_params_subst (t := t) q hq).2, ?_⟩
    rintro rfl
    exact Nat.lt_irrefl _ (varName_mem_inUse.1 (hs.subst ht _ hq))
  have hfree : s₁.bindings.find? (freshVar s.nextVar) = none := hb ▸ hs.find?_fresh (Nat.le_refl _)
  have havoids : s₁.bindings.Avoids (varName s.nextVar) := by
    intro q r hq hmem
    exact Nat.lt_irrefl _ (varName_mem_inUse.1 ((hs.bound _ r (hb ▸ hq)).2 _ hmem))
  have hrange : ∀ σ, Models σ s₁.bindings → t.inst σ = (s₁.subst t).inst σ := by
    rw [State.subst, hb]
    exact fun σ hσ => (hs.wf.inst_subst hσ t).symm
  rcases iterType_inv (hb ▸ hs.wf) (fun q hq => (hsubst q hq).1) h hr with
    ⟨rfl, helem⟩ | ⟨q, hq, rfl, rfl⟩
  · refine ⟨hfree, havoids, fun q hq => hsubst q (Ty.mem_params_of_element? helem hq), ?_, rfl, rfl⟩
    intro σ hσ
    rw [hrange σ hσ]
    exact Ty.element?_inst σ helem
  · -- the range has the free type `q`, which is now dynamic
    obtain ⟨hqfree, hqv⟩ := hsubst q (hq ▸ List.mem_singleton_self q)
    refine ⟨?_, fun r w hr => ?_, nofun, fun σ hσ => ?_, rfl, rfl⟩
    · rw [Table.find?_insert_of_ne _ _ (fun heq => hqv (Ty.param.inj heq))]
      exact hfree
    · rw [Table.find?_insert] at hr
      split at hr
      · cases hr
        exact List.not_mem_nil
      · exact havoids r w hr
    · obtain ⟨hσ, hdyn⟩ := (models_insert_free hqfree).1 hσ
      rw [hrange σ hσ, hq, Ty.inst, hdyn]
      rfl

theorem Build.rooted?_accuName : Dotted.rooted? Build.accuName = none := rfl

theorem Env.lookupIdent?_bind {d : IdentDecl} (hc : env.container = {})
    (hd : Dotted.rooted? d.name = none) : (env.enter.bind d).lookupIdent? d.name = some d := by
  have hc : (env.enter.bind d).container = {} := hc
  rw [lookupIdent?_eq hc hd, TypeInvariant.lookupCandidate?_bind, if_pos rfl]

def Env.listLoop (env : Env) (v x : String) (u : Ty) : Env :=
  (env.enter.bind { name := Build.accuName, ty := .list (.param v) }).enter.bind
    { name := x, ty := u }

theorem Env.lookupCandidate?_listLoop (env : Env) (v x name : String) (u : Ty) :
    (env.listLoop v x u).lookupCandidate? name =
      if x = name then some { name := x, ty := u }
      else if Build.accuName = name then some { name := Build.accuName, ty := .list (.param v) }
      else env.lookupCandidate? name := by
  rw [listLoop, TypeInvariant.lookupCandidate?_bind, TypeInvariant.lookupCandidate?_bind]

theorem Env.Plain.accumulates {n : Nat} {t u : Ty} {s₁ s₂ : State} (h : env.Plain)
    (hx : x ≠ Build.accuName) (hstart : Starts (varName n) t u s₁ s₂) (hi : Inert s₂ s)
    (hs : TypeInvariant.variablesInUse.Sound (env.listLoop (varName n) x u) s)
    (hn : n < s.nextVar) : Accumulates (env.listLoop (varName n) x u) (varName n) s where
  toHasStandard := (h.toHasStandard.bind _).bind _
  accu := by
    refine ⟨{ name := Build.accuName, ty := .list (.param (varName n)) }, ?_, rfl⟩
    have hc : (env.listLoop (varName n) x u).container = {} := h.container
    rw [lookupIdent?_eq hc Build.rooted?_accuName, lookupCandidate?_listLoop, if_neg hx, if_pos rfl]
  others name d hname hd := by
    rw [lookupCandidate?_listLoop] at hd
    split at hd
    · cases hd
      rw [hi.bindings]
      exact apart_of_free hstart.elements
    · rw [if_neg (Ne.symm hname)] at hd
      obtain ⟨hexposed, hvar⟩ := h.ident name d hd
      exact ⟨by simp [hexposed], hvar n⟩
  sound := hs
  free := hi.bindings ▸ hstart.free
  avoids := hi.bindings ▸ hstart.avoids
  known := varName_mem_inUse.2 hn

theorem Env.Plain.loopStart {t u : Ty} {c : Value} {init' cond' : Expr} {s₁ s₂ s₃ s₄ : State}
    (h : env.Plain) (hx : x ≠ Build.accuName) (hs₁ : TypeInvariant.variablesInUse.Sound env s₁)
    (ht : s₁.types.find? id = some t) (hinit : Completes env s₁ (.list i []) init' s₂)
    (hiter : iterType s₂ id (s₂.subst t) = (u, s₃)) (hr : s₃.reports = [])
    (hcond : Completes (env.listLoop (varName s₁.nextVar) x u) s₃ (.const j c) cond' s₄) :
    Starts (varName s₁.nextVar) t u s₂ s₃ ∧
      Accumulates (env.listLoop (varName s₁.nextVar) x u) (varName s₁.nextVar) s₄ := by
  obtain ⟨hb₂, hn₂, -⟩ := hinit.list_nil_inv
  have hstart := starts_iterType hs₁ hb₂ (hs₁.types _ _ ht) hiter hr
  have hn₃ : s₁.nextVar < s₃.nextVar := by
    rw [hstart.nextVar, hn₂]
    exact Nat.lt_succ_self _
  -- both variables of the loop have known types
  have hs₂ := (hs₁.completes hinit).1
  obtain ⟨hs₃, hu⟩ := hs₂.iterType (hs₂.subst (hs₂.types _ _ (hinit.advances.types _ _ ht))) id
  rw [hiter] at hs₃ hu
  have haccu := TypeInvariant.variablesInUse.list (TypeInvariant.variablesInUse.fresh hn₃)
  have hs₄ := (((hs₃.bind haccu).bind hu).completes hcond).1
  have hinert := hcond.const_inv.1
  exact ⟨hstart, h.accumulates hx hstart hinert hs₄ (hinert.nextVar ▸ hn₃)⟩

theorem Checker.Completes.loopEnd_inv {d : IdentDecl} {s₁ : State}
    (hd : env.lookupIdent? x = some d)
    (h : Completes env (s.expect i d.ty) (.ident j x) e' s₁)
    (hset : s₁.setType id (s₁.subst (s₁.typeAt j)) = .ok s') (hr : s'.reports = []) :
    s.reports = [] ∧ (∀ i t, s.types.find? i = some t → s'.types.find? i = some t) ∧
      s.bindings.assign? (s.typeAt i) d.ty = some s'.bindings ∧
      s'.types.find? id = some (s'.bindings.subst false d.ty) := by
  have hinert := inert_setType hset
  have hr₁ : s₁.reports = [] := hinert.reports ▸ hr
  obtain ⟨m, hm, heq⟩ := expect_inv (h.reports_eq_nil hr₁)
  rw [heq] at h
  obtain ⟨hinert₁, hj⟩ := h.ident_inv hd
  have hb : s'.bindings = m := hinert.bindings.trans hinert₁.bindings
  refine ⟨h.reports_eq_nil hr₁, fun i t ht => ?_, hb ▸ hm, ?_⟩
  · exact (grows_setType hset).1.types i t (h.advances.types i t ht)
  · rw [(grows_setType hset).2.1, typeAt, hj, Option.getD_some, State.subst, hinert.bindings]

/-- The check of a list macro, from the start of its loop in `s₀` over the end of the step in `s₁`
to `s'`. The accumulator is a list of `v`, and the step has to have that type. -/
structure ListLoop (env : Env) (v x : String) (t u : Ty) (range step : Expr) (id : Int)
    (s₀ s₁ s' : State) : Prop where
  accumulates : Accumulates (env.listLoop v x u) v s₀
  rangeType : s'.types.find? range.id = some t
  elements : ∀ σ, Models σ s₀.bindings → (t.inst σ).element? = some (u.inst σ)
  completes : ∃ step', Completes (env.listLoop v x u) s₀ step step' s₁
  reports : s₁.reports = []
  kept : ∀ i t, s₁.types.find? i = some t → s'.types.find? i = some t
  assign : s₁.bindings.assign? (s₁.typeAt step.id) (.list (.param v)) = some s'.bindings
  result : s'.types.find? id = some (s'.bindings.subst false (.list (.param v)))

theorem Env.Plain.listLoop_inv (h : env.Plain) (hx : x ≠ Build.accuName)
    (hc : Completes env {} (.fold id x range Build.accuName (.list i []) (.const j (.bool true))
      step (.ident k Build.accuName)) e' s') (hr : s'.reports = []) :
    ∃ v t u s₀ s₁, ListLoop env v x t u range step id s₀ s₁ s' := by
  cases hc.rule with
  | @fold s₁ s₂ s₃ s₄ s₅ s₆ _ _ _ _ _ _ _ _ _ _ _ step' _ _ accuEnv loopEnv u hrange hinit hiter
      haccu hloop hcond hstep hresult hset =>
    obtain ⟨hs₁, hid₁⟩ := h.sound.completes hrange
    obtain ⟨t, ht⟩ := Option.isSome_iff_exists.1 hid₁
    have ht₂ : s₂.types.find? range.id = some t := hinit.advances.types _ _ ht
    rw [typeAt, ht₂, Option.getD_some] at hiter
    have haccuTy : s₂.typeAt i = .list (.param (varName s₁.nextVar)) := by
      rw [typeAt, hinit.list_nil_inv.2.2, Option.getD_some]
      rfl
    -- the end of the loop; nothing was reported before
    have hlookup : accuEnv.lookupIdent? Build.accuName =
        some { name := Build.accuName, ty := s₂.typeAt i } :=
      haccu ▸ Env.lookupIdent?_bind h.container Build.rooted?_accuName
    obtain ⟨hr₅, hkept, hassign, hid⟩ := Completes.loopEnd_inv hlookup hresult hset hr
    rw [haccuTy] at hassign hid
    -- its start; the condition has the type that is asked of it
    obtain rfl : loopEnv = env.listLoop (varName s₁.nextVar) x u := by
      rw [hloop, haccu, Expr.id, haccuTy]
      rfl
    obtain ⟨hinert, hcondty⟩ := hcond.const_inv
    have hexpect : s₄.expect j .bool = s₄ := expect_self hcondty
    rw [Expr.id, hexpect] at hstep
    have hr₃ : s₃.reports = [] := hcond.reports_eq_nil (hstep.reports_eq_nil hr₅)
    obtain ⟨hstart, hacc⟩ := h.loopStart hx hs₁ ht hinit hiter hr₃ hcond
    exact ⟨varName s₁.nextVar, t, u, s₄, s₅,
      { accumulates := hacc
        rangeType := by
          refine hkept _ _ (hstep.advances.types _ _ (hcond.advances.types _ _ ?_))
          rw [hstart.types, ht₂]
        elements := fun σ hσ => hstart.range σ (hinert.bindings ▸ hσ)
        completes := ⟨step', hstep⟩
        reports := hr₅
        kept := hkept
        assign := hassign
        result := hid }⟩

namespace ListLoop

variable {v : String} {t u w : Ty} {s₀ s₁ : State}

theorem wf_step (h : ListLoop env v x t u range step id s₀ s₁ s') : s₁.bindings.Wf := by
  obtain ⟨step', hstep⟩ := h.completes
  exact (h.accumulates.sound.completes hstep).1.wf

theorem wf (h : ListLoop env v x t u range step id s₀ s₁ s') : s'.bindings.Wf :=
  h.wf_step.assign? h.assign

theorem models_step {σ : String → Ty} (h : ListLoop env v x t u range step id s₀ s₁ s')
    (hw : Collects v w step.id s₁) (hσ : Models σ s'.bindings) : Models σ s₁.bindings :=
  (assign?_neutral h.wf_step (fun σ hσ => (hw σ hσ).1) h.assign σ).1 hσ

theorem type_of_collects (h : ListLoop env v x t u range step id s₀ s₁ s')
    (hw : Collects v w step.id s₁) : (s'.types.find? id).map (s'.bindings.subst true) =
      some (.list (s'.bindings.subst true w)) := by
  have hσ : Models (s'.bindings.solution true) s'.bindings := h.wf.models_solution_toDyn
  rw [h.result, Option.map_some, h.wf.keys.subst_eq_inst true, h.wf.keys.subst_eq_inst true,
    h.wf.inst_subst hσ, Ty.inst, Ty.inst, (hw _ (h.models_step hw hσ)).2]

end ListLoop

end Loops

section Macros

variable {env : Env} {source : Source} {range p t : Expr} {x : String} {n : Int} {r : CheckResult}

theorem Checker.Completes.id_eq {s s' : State} {e e' : Expr} (h : Completes env s e e' s') :
    e'.id = e.id := by
  cases h.rule <;> rfl

theorem Env.Plain.check_listLoop {step : Expr} {id i j k : Int} (h : env.Plain)
    (hx : x ≠ Build.accuName)
    (hc : check env source (.fold id x range Build.accuName (.list i []) (.const j (.bool true))
      step (.ident k Build.accuName)) = .ok r) (hr : r.diagnostics = []) :
    ∃ v t u s₀ s₁ s, checkExpr env {} (.fold id x range Build.accuName (.list i [])
        (.const j (.bool true)) step (.ident k Build.accuName)) = .ok (r.expr, s) ∧
      ListLoop env v x t u range step id s₀ s₁ s ∧
      (∀ i t, s.types.find? i = some t → r.types.find? i = some (s.bindings.subst true t)) ∧
      ∀ w, Collects v w step.id s₁ → r.type? = some (.list (s.bindings.subst true w)) := by
  obtain ⟨s, hs, htypes, hdiag⟩ := check_eq_ok hc
  have hcompletes : Completes env {} _ r.expr s := hs
  obtain ⟨v, t, u, s₀, s₁, hloop⟩ :=
    h.listLoop_inv hx hcompletes (List.map_eq_nil_iff.1 (hdiag.symm.trans hr))
  refine ⟨v, t, u, s₀, s₁, s, hs, hloop, fun i t ht => ?_, fun w hw => ?_⟩
  · rw [htypes, Table.find?_mapValues, ht, Option.map_some]
  · rw [CheckResult.type?, hcompletes.id_eq, htypes, Table.find?_mapValues]
    exact hloop.type_of_collects hw

theorem Env.Plain.mapEach_type (h : env.Plain) (hx : x ≠ Build.accuName)
    (ht : Build.accuName ∉ t.freeNames {})
    (hc : check env source ((Build.mapEach range x t).run n).1 = .ok r) (hr : r.diagnostics = []) :
    ∃ u, r.types.find? t.id = some u ∧ r.type? = some (.list u) := by
  obtain ⟨v, _, u, s₀, s₁, s, -, hloop, htypes, htype⟩ := h.check_listLoop hx hc hr
  obtain ⟨step', hstep⟩ := hloop.completes
  obtain ⟨w, hw, hcollects⟩ := hloop.accumulates.collects_append ht hstep hloop.reports
  exact ⟨s.bindings.subst true w, htypes _ _ (hloop.kept _ _ hw), htype w hcollects⟩

theorem Env.Plain.mapWhere_type (h : env.Plain) (hx : x ≠ Build.accuName)
    (hp : Build.accuName ∉ p.freeNames {}) (ht : Build.accuName ∉ t.freeNames {})
    (hc : check env source ((Build.mapWhere range x p t).run n).1 = .ok r)
    (hr : r.diagnostics = []) :
    ∃ e' s u, checkExpr env {} ((Build.mapWhere range x p t).run n).1 = .ok (e', s) ∧
      r.types.find? t.id = some u ∧
      ((∀ v, .typeOf v ∈ (s.typeAt t.id).parts → v.params = []) → r.type? = some (.list u)) := by
  obtain ⟨v, _, u, s₀, s₁, s, hs, hloop, htypes, htype⟩ := h.check_listLoop hx hc hr
  obtain ⟨step', hstep⟩ := hloop.completes
  obtain ⟨w, hw, hcollects⟩ := hloop.accumulates.collects_appendIf hp ht hstep hloop.reports
  have hfound := hloop.kept _ _ hw
  refine ⟨r.expr, s, s.bindings.subst true w, hs, htypes _ _ hfound, fun hvalues => ?_⟩
  rw [State.typeAt, hfound, Option.getD_some] at hvalues
  exact htype w (hcollects hvalues)

theorem Env.Plain.filter_type (h : env.Plain) (hx : x ≠ Build.accuName)
    (hroot : Dotted.rooted? x = none) (hp : Build.accuName ∉ p.freeNames {})
    (hc : check env source ((Build.filter range x p).run n).1 = .ok r) (hr : r.diagnostics = []) :
    ∃ t u, r.types.find? range.id = some t ∧ t.element? = some u ∧ r.type? = some (.list u) := by
  obtain ⟨v, t, u, s₀, s₁, s, -, hloop, htypes, htype⟩ := h.check_listLoop hx hc hr
  obtain ⟨step', hstep⟩ := hloop.completes
  have hx : ∀ i, Build.accuName ∉ (Expr.ident i x).freeNames {} := fun i => by
    rw [Expr.freeNames, Container.candidates_empty hroot, List.mem_singleton]
    exact Ne.symm hx
  obtain ⟨hcollects, hmodels⟩ := hloop.accumulates.collects_select hp (hx _)
    (Env.lookupIdent?_bind h.container hroot) hstep hloop.reports
  refine ⟨s.bindings.subst true t, s.bindings.subst true u, htypes _ _ hloop.rangeType, ?_,
    htype u hcollects⟩
  rw [hloop.wf.keys.subst_eq_inst, hloop.wf.keys.subst_eq_inst]
  exact hloop.elements _ (hmodels _ (hloop.models_step hcollects hloop.wf.models_solution_toDyn))

/-- In the standard environment with further identifiers whose types have no parameters, let the
bodies of a list macro not name the accumulator. If the check reports nothing, then `filter` is a
list of what its range has, and `map` a list of what its transform gives; with a condition this is
so if there are no parameters in the type values of what was recorded for the transform. -/
theorem check_listMacros {provider : Provider} {ds : List IdentDecl} {policy : LiteralPolicy}
    (hmessage : ∀ name t, provider.message? name = some t → ∀ k, varName k ∉ t.params)
    (hfield : ∀ m f t, provider.field? m f = some t → t.params = [])
    (hds : ∀ d ∈ ds, d.ty.params = [])
    (henv : (Env.standard {} provider).add (ds.map .ident) = .ok env)
    (hx : x ≠ Build.accuName) (hroot : Dotted.rooted? x = none)
    (hp : Build.accuName ∉ p.freeNames {}) (ht : Build.accuName ∉ t.freeNames {}) :
    (∀ r, check { env with options := { policy } } source ((Build.filter range x p).run n).1 =
        .ok r → r.diagnostics = [] →
      (∀ u, r.types.find? range.id = some (.list u) → r.type? = some (.list u)) ∧
      (∀ u v, r.types.find? range.id = some (.map u v) → r.type? = some (.list u)) ∧
      (r.types.find? range.id = some .dyn → r.type? = some (.list .dyn))) ∧
    (∀ r, check { env with options := { policy } } source ((Build.mapEach range x t).run n).1 =
        .ok r → r.diagnostics = [] →
      ∃ u, r.types.find? t.id = some u ∧ r.type? = some (.list u)) ∧
    ∀ r, check { env with options := { policy } } source ((Build.mapWhere range x p t).run n).1 =
        .ok r → r.diagnostics = [] →
      ∃ e' s u, checkExpr { env with options := { policy } } {}
          ((Build.mapWhere range x p t).run n).1 = .ok (e', s) ∧
        r.types.find? t.id = some u ∧
        ((∀ v, .typeOf v ∈ (s.typeAt t.id).parts → v.params = []) →
          r.type? = some (.list u)) := by
  have hplain := Env.plain_standard hmessage hfield hds henv policy
  refine ⟨fun r hc hr => ?_, fun r hc hr => hplain.mapEach_type hx ht hc hr,
    fun r hc hr => hplain.mapWhere_type hx hp ht hc hr⟩
  obtain ⟨t, u, hrange, helem, htype⟩ := hplain.filter_type hx hroot hp hc hr
  rw [htype, hrange]
  refine ⟨?_, ?_, ?_⟩
  · rintro u ⟨⟩
    cases helem
    rfl
  · rintro u v ⟨⟩
    cases helem
    rfl
  · rintro ⟨⟩
    cases helem
    rfl

theorem check_listMacros_of_keys :
    let ds : List IdentDecl :=
      [{ name := "w", ty := .wrapper .int }, { name := "ws", ty := .map (.wrapper .int) .string }]
    let range : Expr := .ident 1 "ws"
    let p : Expr := .call 4 "_!=_" [.ident 2 "x", .ident 3 "w"]
    let t : Expr := .list 7 [.ident 5 "x", .ident 6 "w"]
    let u : Expr := .call 7 "type" [.ident 6 "w"]
    ∃ env, (Env.standard {} ⟨fun _ => none, fun _ _ => none, fun _ => none⟩).add
        (ds.map .ident) = .ok env ∧
      (∃ r, check { env with options := {} } {} ((Build.filter range "x" p).run 8).1 = .ok r ∧
        r.type? = some (.list (.wrapper .int))) ∧
      (∃ r, check { env with options := {} } {} ((Build.mapEach range "x" t).run 8).1 = .ok r ∧
        r.type? = some (.list (.list (.wrapper .int)))) ∧
      ∃ r, check { env with options := {} } {} ((Build.mapWhere range "x" p u).run 8).1 = .ok r ∧
        r.type? = some (.list (.typeOf (.wrapper .int))) := by
  intro ds range p t u
  obtain ⟨env, henv, ⟨r₁, h₁, hd₁, ht₁⟩, ⟨r₂, h₂, hd₂, ht₂⟩, ⟨r₃, h₃, hd₃, ht₃⟩, hrecorded⟩ :
      ∃ env, (Env.standard {} ⟨fun _ => none, fun _ _ => none, fun _ => none⟩).add
          (ds.map .ident) = .ok env ∧
        (∃ r, check { env with options := {} } {} ((Build.filter range "x" p).run 8).1 = .ok r ∧
          r.diagnostics = [] ∧ r.types.find? 1 = some (.map (.wrapper .int) .string)) ∧
        (∃ r, check { env with options := {} } {} ((Build.mapEach range "x" t).run 8).1 = .ok r ∧
          r.diagnostics = [] ∧ r.types.find? 7 = some (.list (.wrapper .int))) ∧
        (∃ r, check { env with options := {} } {} ((Build.mapWhere range "x" p u).run 8).1 = .ok r ∧
          r.diagnostics = [] ∧ r.types.find? 7 = some (.typeOf (.wrapper .int))) ∧
        (checkExpr { env with options := {} } {}
          ((Build.mapWhere range "x" p u).run 8).1).toOption.map (fun r => r.2.typeAt 7) =
            some (.typeOf (.wrapper .int)) := by
    refine ⟨_, rfl, ?_, ?_, ?_, by decide +kernel⟩ <;> exact exists_check_eq_ok (by decide +kernel)
  obtain ⟨hfilter, heach, -⟩ := check_listMacros (x := "x") (p := p) (t := t) (by simp)
    (by simp) (by decide) henv (by decide) rfl (by decide) (by decide)
  obtain ⟨-, -, hwhere⟩ := check_listMacros (x := "x") (p := p) (t := u) (by simp)
    (by simp) (by decide) henv (by decide) rfl (by decide) (by decide)
  refine ⟨env, henv, ⟨r₁, h₁, (hfilter r₁ h₁ hd₁).2.1 _ _ ht₁⟩, ⟨r₂, h₂, ?_⟩, r₃, h₃, ?_⟩
  · obtain ⟨_, hu, htype⟩ := heach r₂ h₂ hd₂
    cases ht₂.symm.trans hu
    exact htype
  · obtain ⟨e', s, _, hs, hu, htype⟩ := hwhere r₃ h₃ hd₃
    cases ht₃.symm.trans hu
    have hvalue : s.typeAt 7 = .typeOf (.wrapper .int) := by
      rw [hs] at hrecorded
      exact Option.some.inj hrecorded
    apply htype
    simp [u, Expr.id, hvalue, Ty.parts, Ty.params]

/-- With a condition, a type value may keep the type that an element had before it was compared; and
the accumulator can be named by `.__result__`, too. -/
theorem check_listMacros_of_type_value :
    let ds : List IdentDecl :=
      [{ name := "w", ty := .wrapper .bool }, { name := "ws", ty := .list (.wrapper .int) }]
    let t : Expr := .map 9 [.mk 8 (.call 4 "type" [.ident 3 "x"])
      (.call 7 "_==_" [.ident 5 "x", .ident 6 "w"])]
    let p : Expr := .call 5 "_==_" [.ident 2 ".__result__", .list 4 [.const 3 (.int 1)]]
    ∃ env, (Env.standard {} ⟨fun _ => none, fun _ _ => none, fun _ => none⟩).add
        (ds.map .ident) = .ok env ∧
      Build.accuName ∉ (Expr.ident 2 "x").freeNames {} ∧ Build.accuName ∉ t.freeNames {} ∧
      (∃ r, check env {} ((Build.mapWhere (.list 1 []) "x" (.ident 2 "x") t).run 10).1 = .ok r ∧
        r.diagnostics = [] ∧ r.types.find? 9 = some (.map (.typeOf .bool) .bool) ∧
        r.type? = some (.list (.map (.typeOf (.wrapper .bool)) .bool))) ∧
      ∃ r, check env {} ((Build.filter (.ident 1 "ws") "x" p).run 6).1 = .ok r ∧
        r.diagnostics = [] ∧ r.types.find? 1 = some (.list (.wrapper .int)) ∧
        r.type? = some (.list .int) :=
  ⟨_, rfl, by decide, by decide, ⟨_, rfl, rfl, by decide +kernel, by decide +kernel⟩,
    _, rfl, rfl, by decide +kernel, by decide +kernel⟩

end Macros

end ExprTyping
