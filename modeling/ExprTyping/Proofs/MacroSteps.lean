import ExprTyping.Expr.Builder
import ExprTyping.Proofs.StandardEnv

namespace ExprTyping

open Checker State Bindings

section Overloads

variable {m m' : Bindings} {n : Nat} {t u : Ty} {ts : List Ty} {v : Trial} {o : Overload}

theorem Bindings.assignIn_list_ne_assigned (hu : u.kind = .primitive ∨ u.kind = .wellKnown) :
    assignIn n m (.list t) u ≠ .assigned m' := by
  cases n with
  | zero => simp [assignIn]
  | succ n =>
    cases u with
    | prim p => simp [assignIn, step, stepLeft, stepShape, slot, Ty.isWildcard]
    | wellKnown w => simp [assignIn, step, stepLeft, stepShape, slot, Ty.isWildcard]
    | _ => simp [Ty.kind] at hu

theorem Trial.overload_of_scalar (hp : o.typeParams = [])
    (hu : o.params.head?.map Ty.kind = some .primitive ∨
      o.params.head?.map Ty.kind = some .wellKnown) : v.overload (.list t :: ts) o = v := by
  have hinst : o.instantiate v.nextVar = (o.params, o.result, v.nextVar) := by
    simp [Overload.instantiate, Overload.isParametric, hp]
  rcases v.overload_case (.list t :: ts) o with heq | ⟨m, hm, -⟩
  · rw [heq, hinst]
  · rw [hinst] at hm
    obtain ⟨u, us, m₁, heq, h₁, -⟩ := pairwise_cons_eq_assigned (Outcome.toOption_eq_some.1 hm)
    replace heq : o.params = u :: us := heq
    rw [heq, List.head?_cons, Option.map_some, Option.some_inj, Option.some_inj] at hu
    exact absurd h₁ (assignIn_list_ne_assigned hu)

namespace Standard

def addList : Overload :=
  global "add_list" [.list paramA, .list paramA] (.list paramA) ["A"]

def addScalars : List Overload :=
  binary "add" (numeric ++ [("string", .string), ("bytes", .bytes)]) id

def addTimes : List Overload :=
  [global "add_timestamp_duration" [.timestamp, .duration] .timestamp,
   global "add_duration_timestamp" [.duration, .timestamp] .timestamp,
   global "add_duration_duration" [.duration, .duration] .duration]

theorem function?_add : function? "_+_" = some ⟨"_+_", addScalars ++ addList :: addTimes⟩ := rfl

def conditional : Overload := global "conditional" [.bool, paramA, paramA] paramA ["A"]

theorem function?_conditional : function? "_?_:_" = some ⟨"_?_:_", [conditional]⟩ := rfl

theorem instantiate_addList (n : Nat) : addList.instantiate n =
    ([.list (freshVar n), .list (freshVar n)], .list (freshVar n), n + 1) := rfl

theorem instantiate_conditional (n : Nat) : conditional.instantiate n =
    ([.bool, freshVar n, freshVar n], freshVar n, n + 1) := rfl

theorem scalar_add : ∀ o ∈ addScalars ++ addTimes, o.typeParams = [] ∧
    (o.params.head?.map Ty.kind = some .primitive ∨
      o.params.head?.map Ty.kind = some .wellKnown) := by
  decide

theorem receiver_add : ∀ o ∈ addScalars ++ addList :: addTimes, o.receiver = false := by
  decide

theorem all_add (v : Trial) (t : Ty) (ts : List Ty) {enabled : String → Bool}
    (h : ∀ id, enabled id = true) :
    v.all enabled false (.list t :: ts) (addScalars ++ addList :: addTimes) =
      v.overload (.list t :: ts) addList := by
  have hskip : ∀ v : Trial, ∀ os : List Overload, (∀ o ∈ os, o ∈ addScalars ++ addTimes) →
      os.foldl (·.overload (.list t :: ts) ·) v = v := by
    intro v os hos
    refine List.foldlRecOn (motive := (· = v)) os _ rfl ?_
    rintro w rfl o ho
    obtain ⟨hp, hu⟩ := scalar_add o (hos o ho)
    exact Trial.overload_of_scalar hp hu
  have hall : ∀ o ∈ addScalars ++ addList :: addTimes,
      (enabled o.id && o.receiver == false) = true := fun o ho => by
    simp [h, receiver_add o ho]
  rw [Trial.all, List.filter_eq_self.2 hall, List.foldl_append, List.foldl_cons,
    hskip v addScalars fun o ho => List.mem_append_left _ ho,
    hskip _ addTimes fun o ho => List.mem_append_right _ ho]

theorem all_conditional (v : Trial) (ts : List Ty) {enabled : String → Bool}
    (h : ∀ id, enabled id = true) :
    v.all enabled false ts [conditional] = v.overload ts conditional := by
  have hall : ∀ o ∈ [conditional], (enabled o.id && o.receiver == false) = true := by
    simp [h, conditional, global]
  rw [Trial.all, List.filter_eq_self.2 hall]
  rfl

end Standard

end Overloads

structure State.Inert (s s' : State) : Prop where
  bindings : s'.bindings = s.bindings
  nextVar : s'.nextVar = s.nextVar
  reports : s'.reports = s.reports

namespace Checker

section Inversion

variable {env : Env} {s s' : State} {e e' t : Expr} {id i j : Int} {name : String} {d : IdentDecl}

theorem inert_setType {u : Ty} (h : s.setType id u = .ok s') : Inert s s' := by
  rcases setType_cases h with ⟨-, rfl⟩ | ⟨-, rfl⟩ <;> exact ⟨rfl, rfl, rfl⟩

theorem inert_setReference {q : Reference} (h : s.setReference id q = .ok s') : Inert s s' := by
  rcases setReference_cases h with ⟨-, rfl⟩ | ⟨-, rfl⟩ <;> exact ⟨rfl, rfl, rfl⟩

theorem InTurn.nil_inv {R : State → Expr → Expr → State → Prop} {es' : List Expr}
    (h : InTurn R s [] es' s') : s' = s := by
  cases h
  rfl

theorem InTurn.cons_inv {R : State → Expr → Expr → State → Prop} {es es' : List Expr}
    (h : InTurn R s (e :: es) es' s') :
    ∃ e' s₁, R s e e' s₁ ∧ ∃ es'', InTurn R s₁ es es'' s' := by
  cases h with
  | cons he hes => exact ⟨_, _, he, _, hes⟩

theorem Completes.reports_eq_nil (h : Completes env s e e' s') (hr : s'.reports = []) :
    s.reports = [] :=
  h.advances.reports_eq_nil hr

theorem Completes.const_inv {v : Value} (h : Completes env s (.const i v) e' s') :
    Inert s s' ∧ s'.types.find? i = some v.ty := by
  cases h.rule with
  | const hset => exact ⟨inert_setType hset, (grows_setType hset).2.1⟩

theorem Completes.ident_inv (hd : env.lookupIdent? name = some d)
    (h : Completes env s (.ident i name) e' s') : Inert s s' ∧ s'.types.find? i = some d.ty := by
  cases h.rule with
  | ident hd' hset =>
    rw [hd, Option.some_inj] at hd'
    subst hd'
    simp only [annotateIdent, bind_eq_ok] at hset
    obtain ⟨s₁, hs, hq⟩ := hset
    have h₁ := inert_setType hs
    have h₂ := inert_setReference hq
    refine ⟨⟨h₂.bindings.trans h₁.bindings, h₂.nextVar.trans h₁.nextVar,
      h₂.reports.trans h₁.reports⟩, ?_⟩
    rw [(grows_setReference hq).2.1, (grows_setType hs).2.1]
  | undeclaredIdent hd' _ => simp [hd] at hd'

theorem Completes.singleton_inv (h : Completes env s (.list j [t]) e' s') :
    ∃ t' s₁, Completes env s t t' s₁ ∧ Inert s₁ s' ∧ Grows s₁ s' ∧
      s'.types.find? j = some (.list (s₁.typeAt t.id)) := by
  cases h.rule with
  | list helems hf hset =>
    cases helems with
    | cons ht hj hes =>
      cases hes
      cases hj
      cases hf
      exact ⟨_, _, ht, inert_setType hset, (grows_setType hset).1, (grows_setType hset).2.1⟩

theorem resolveCall_inv {f : FunctionDecl} {o : Overload} (args : List Int)
    (hall : ∀ v : Trial, v.all (fun o => !env.options.isDisabled o) false (args.map s.typeAt)
      f.overloads = v.overload (args.map s.typeAt) o)
    (h : resolveCall env s id f false args = .ok s') (hr : s'.reports = []) :
    s.bindings.assignAll? (args.map s.typeAt) (o.instantiate s.nextVar).1 = some s'.bindings ∧
      s'.types.find? id = some (s'.bindings.subst false (o.instantiate s.nextVar).2.1) := by
  simp only [resolveCall, hall] at h
  rcases Trial.overload_case ⟨s.bindings, s.nextVar, none⟩ (args.map s.typeAt) o with
    heq | ⟨m, hm, heq⟩
  · rw [heq] at h
    have hreports := (inert_setType h).reports
    rw [hr] at hreports
    simp [report] at hreports
  · rw [heq] at h
    simp only [Resolution.add, bind_eq_ok] at h
    obtain ⟨s₁, hs, hq⟩ := h
    have hb : s'.bindings = m := (inert_setReference hq).bindings.trans (inert_setType hs).bindings
    refine ⟨hb ▸ hm, ?_⟩
    rw [(grows_setReference hq).2.1, (grows_setType hs).2.1, hb]

theorem Completes.add_inv (henv : env.HasStandard) (hd : env.lookupIdent? name = some d) {u : Ty}
    (hu : d.ty = .list u) (h : Completes env s (.call id "_+_" [.ident i name, .list j [t]]) e' s')
    (hr : s'.reports = []) :
    ∃ a' s₁ t' s₂, Completes env s (.ident i name) a' s₁ ∧ Inert s s₁ ∧
      Completes env s₁ t t' s₂ ∧ Grows s₂ s' ∧
      s₂.bindings.assignAll? [.list u, .list (s₂.typeAt t.id)]
        [.list (freshVar s₂.nextVar), .list (freshVar s₂.nextVar)] = some s'.bindings ∧
      s'.types.find? id = some (s'.bindings.subst false (.list (freshVar s₂.nextVar))) := by
  cases h.rule with
  | undeclaredCall _ hf _ =>
    rw [henv.add] at hf
    cases hf
  | @call s₃ _ _ _ _ _ f hargs hf hset =>
    rw [henv.add, Standard.function?_add, Option.some_inj] at hf
    subst hf
    obtain ⟨a', s₁, hfront, _, hargs⟩ := hargs.cons_inv
    obtain ⟨_, s₄, hlist, _, hargs⟩ := hargs.cons_inv
    obtain rfl := hargs.nil_inv
    obtain ⟨hinert, hidi⟩ := hfront.ident_inv hd
    obtain ⟨t', s₂, ht, hinert₂, hgrows₂, hidj⟩ := hlist.singleton_inv
    have hi : s₃.typeAt i = .list u := by
      rw [typeAt, hlist.advances.types i _ hidi, hu, Option.getD_some]
    have hj : s₃.typeAt j = .list (s₂.typeAt t.id) := by
      rw [typeAt, hidj, Option.getD_some]
    have hall : ∀ v : Trial, v.all (fun o => !env.options.isDisabled o) false
        [s₃.typeAt i, s₃.typeAt j] (Standard.addScalars ++ Standard.addList :: Standard.addTimes) =
        v.overload [s₃.typeAt i, s₃.typeAt j] Standard.addList := by
      intro v
      rw [hi]
      exact Standard.all_add v _ _ (by simp [Options.isDisabled, henv.enabled])
    obtain ⟨hassign, hid⟩ := resolveCall_inv [i, j] hall hset hr
    rw [List.map_cons, List.map_cons, List.map_nil, hi, hj, Standard.instantiate_addList,
      hinert₂.bindings, hinert₂.nextVar] at hassign
    rw [Standard.instantiate_addList, hinert₂.nextVar] at hid
    have hgrows := hgrows₂.trans (advances_resolveCall hset).toGrows
    exact ⟨a', s₁, t', s₂, hfront, hinert, ht, hgrows, hassign, hid⟩

theorem Completes.conditional_inv {a p : Expr} (henv : env.HasStandard)
    (hd : env.lookupIdent? name = some d)
    (h : Completes env s (.call id "_?_:_" [p, a, .ident i name]) e' s') (hr : s'.reports = []) :
    ∃ p' s₁ a' s₂, Completes env s p p' s₁ ∧ Completes env s₁ a a' s₂ ∧ Grows s₂ s' ∧
      s₂.reports = [] ∧
      ∀ t u, s₁.types.find? p.id = some t → s₂.types.find? a.id = some u →
      s₂.bindings.assignAll? [t, u, d.ty] [.bool, freshVar s₂.nextVar, freshVar s₂.nextVar] =
        some s'.bindings ∧
      s'.types.find? id = some (s'.bindings.subst false (freshVar s₂.nextVar)) := by
  cases h.rule with
  | undeclaredCall _ hf _ =>
    rw [henv.conditional] at hf
    cases hf
  | @call s₃ _ _ _ _ _ f hargs hf hset =>
    rw [henv.conditional, Standard.function?_conditional, Option.some_inj] at hf
    subst hf
    obtain ⟨p', s₁, hp, _, hargs⟩ := hargs.cons_inv
    obtain ⟨a', s₂, ha, _, hargs⟩ := hargs.cons_inv
    obtain ⟨_, s₄, hfront, _, hargs⟩ := hargs.cons_inv
    obtain rfl := hargs.nil_inv
    obtain ⟨hinert, hidi⟩ := hfront.ident_inv hd
    have hgrows := hfront.advances.toGrows.trans (advances_resolveCall hset).toGrows
    have hreports : s₂.reports = [] := hgrows.reports_eq_nil hr
    obtain ⟨hassign, hid⟩ := resolveCall_inv [p.id, a.id, i] (fun v =>
      Standard.all_conditional v _ (by simp [Options.isDisabled, henv.enabled])) hset hr
    refine ⟨p', s₁, a', s₂, hp, ha, hgrows, hreports, fun t u ht hu => ?_⟩
    have hp₃ : s₃.typeAt p.id = t := by
      rw [typeAt, hfront.advances.types _ _ (ha.advances.types _ _ ht), Option.getD_some]
    have ha₃ : s₃.typeAt a.id = u := by
      rw [typeAt, hfront.advances.types _ _ hu, Option.getD_some]
    have hi₃ : s₃.typeAt i = d.ty := by
      rw [typeAt, hidi, Option.getD_some]
    rw [List.map_cons, List.map_cons, List.map_cons, List.map_nil, hp₃, ha₃, hi₃,
      Standard.instantiate_conditional, hinert.bindings, hinert.nextVar] at hassign
    rw [Standard.instantiate_conditional, hinert.nextVar] at hid
    exact ⟨hassign, hid⟩

end Inversion

end Checker

namespace TypeInvariant

theorem Sound.completes {K : TypeInvariant} {env : Env} {s s' : State} {e e' : Expr}
    (hs : K.Sound env s) (h : Completes env s e e' s') : K.Sound env s' ∧ s'.HasType e.id := by
  obtain ⟨hkept, hid⟩ := (K.preserves env e s hs).2 (e', s') (by rw [result_runExpr]; exact h)
  exact ⟨hkept.sound, hid⟩

variable {env : Env} {s : State} {k : Nat} {t : Ty}

theorem Sound.find?_fresh (hs : variablesInUse.Sound env s) (hk : s.nextVar ≤ k) :
    s.bindings.find? (freshVar k) = none := by
  by_contra hne
  obtain ⟨t, ht⟩ := Option.ne_none_iff_exists'.1 hne
  have hlt := varName_mem_inUse.1 ((hs.bound _ t ht).1 (varName k) (List.mem_singleton_self _))
  omega

theorem Sound.not_below_fresh (hs : variablesInUse.Sound env s) (hk : s.nextVar ≤ k)
    (ht : t.Over (inUse s.nextVar)) : ¬ s.bindings.Below t (freshVar k) := by
  intro hb
  have hend := Rewrites.of_below (A := Ty.Over (inUse s.nextVar)) .refl
    (fun t ht c hc => ht.of_mem_children hc) (fun t u _ hu => (hs.bound t u hu).2) ht hb
  have hlt := varName_mem_inUse.1 (hend (varName k) (List.mem_singleton_self _))
  omega

end TypeInvariant

/-- Bodies of a loop are checked in `env` from `s` on. The accumulator is a list of `x`, which is
free and not mentioned by anything else. -/
structure Accumulates (env : Env) (x : String) (s : State) : Prop extends env.HasStandard where
  accu : ∃ d, env.lookupIdent? Build.accuName = some d ∧ d.ty = .list (.param x)
  others : ∀ name d, name ≠ Build.accuName → env.lookupCandidate? name = some d →
    s.bindings.Apart x d.ty
  sound : TypeInvariant.variablesInUse.Sound env s
  free : s.bindings.find? (.param x) = none
  avoids : s.bindings.Avoids x
  known : x ∈ inUse s.nextVar

/-- The loop that starts in `s₀` is in the state `s`, with nothing appended yet. -/
structure Inside (env : Env) (x : String) (s₀ s : State) : Prop where
  sound : TypeInvariant.variablesInUse.Sound env s
  confined : s.Confined s₀.bindings s₀.nextVar (s₀.bindings.Apart x)

namespace Accumulates

variable {env : Env} {x : String} {s₀ s s' : State} {e e' : Expr}

theorem territory (h : Accumulates env x s) :
    Territory s.bindings s.nextVar (s.bindings.Apart x) := by
  refine territory_apart h.sound.wf h.avoids fun k hk => ⟨h.sound.find?_fresh hk, ?_⟩
  rintro rfl
  exact Nat.not_lt.2 hk (varName_mem_inUse.1 h.known)

theorem gives (h : Accumulates env x s) (hn : Build.accuName ∉ e.freeNames {}) :
    env.Gives (s.bindings.Apart x) (e.freeNames env.container) := by
  rw [h.container]
  intro v hv d hd
  refine h.others v d ?_ hd
  rintro rfl
  exact hn hv

theorem inside (h : Accumulates env x s) : Inside env x s s :=
  ⟨h.sound, .refl, Nat.le_refl _⟩

theorem body (h₀ : Accumulates env x s₀) (h : Inside env x s₀ s)
    (hn : Build.accuName ∉ e.freeNames {}) (hc : Completes env s e e' s') :
    Inside env x s₀ s' ∧ s'.TypedIn (s₀.bindings.Apart x) e.id := by
  obtain ⟨hconfined, hid⟩ := hc.confined h₀.territory h₀.toSelfContained (h₀.gives hn) h.confined
  exact ⟨⟨(h.sound.completes hc).1, hconfined⟩, hid⟩

end Accumulates

namespace Inside

variable {env : Env} {x : String} {s₀ s s' : State} {t : Ty} {σ : String → Ty}

theorem of_inert (h : Inside env x s₀ s) (hi : Inert s s')
    (hs : TypeInvariant.variablesInUse.Sound env s') : Inside env x s₀ s' :=
  ⟨hs, h.confined.of_bindings_eq hi.bindings hi.nextVar.ge⟩

theorem free (h : Inside env x s₀ s) (h₀ : Accumulates env x s₀) :
    s.bindings.find? (.param x) = none := by
  rw [h.confined.rewrites.find?_apart, h₀.free]

theorem not_below (h : Inside env x s₀ s) (h₀ : Accumulates env x s₀) (ht : x ∉ t.params) :
    ¬ s.bindings.Below t (.param x) :=
  h.confined.rewrites.not_below h₀.sound.wf.keys h₀.avoids ht

theorem models (h : Inside env x s₀ s) (hσ : Models σ s.bindings) : Models σ s₀.bindings :=
  h.confined.rewrites.models_apart hσ

end Inside

/-- A list of one element of type `t` was appended to the accumulator, and the result has elements
of the type that `y` stands for. -/
structure Appends (env : Env) (x y : String) (t : Ty) (s₀ s s' : State) (id : Int) : Prop where
  inside : Inside env x s₀ s
  fresh : y = varName s.nextVar
  appended : s.bindings.Appended x y t s'.bindings
  sound : TypeInvariant.variablesInUse.Sound env s'
  result : s'.types.find? id = some (.list (s'.bindings.subst false (.param y)))

theorem Accumulates.append {env : Env} {x : String} {s₀ s s' : State} {t e' : Expr} {id i j : Int}
    (h₀ : Accumulates env x s₀) (h : Inside env x s₀ s) (hn : Build.accuName ∉ t.freeNames {})
    (hc : Completes env s (.call id "_+_" [.ident i Build.accuName, .list j [t]]) e' s')
    (hr : s'.reports = []) : ∃ s₁ t' s₂ y u, Inert s s₁ ∧ Completes env s₁ t t' s₂ ∧
      s₂.types.find? t.id = some u ∧ Grows s₂ s' ∧ Appends env x y u s₀ s₂ s' id := by
  obtain ⟨d, hd, hdty⟩ := h₀.accu
  obtain ⟨a', s₁, t', s₂, hfront, hinert, ht, hgrows, hassign, hid⟩ :=
    hc.add_inv h₀.toHasStandard hd hdty hr
  have h₁ := h.of_inert hinert (h.sound.completes hfront).1
  obtain ⟨h₂, u, hu, hapart⟩ := h₀.body h₁ hn ht
  have hs' := (h.sound.completes hc).1
  have hknown : u.Over (inUse s₂.nextVar) := h₂.sound.types t.id u hu
  have hne : x ≠ varName s₂.nextVar := by
    rintro rfl
    exact Nat.not_lt.2 h₂.confined.nextVar (varName_mem_inUse.1 h₀.known)
  rw [typeAt, hu, Option.getD_some] at hassign
  rw [hs'.wf.keys.subst_eq_inst, Ty.inst, ← hs'.wf.keys.subst_eq_inst] at hid
  exact ⟨s₁, t', s₂, varName s₂.nextVar, u, hinert, ht, hu, hgrows,
    { inside := h₂
      fresh := rfl
      appended := assignAll?_append h₂.sound.wf (h₂.free h₀)
        (h₂.sound.find?_fresh (Nat.le_refl _)) hne (h₂.not_below h₀ hapart.2)
        (h₂.sound.not_below_fresh (Nat.le_refl _) hknown) hassign
      sound := hs'
      result := hid }⟩

namespace Appends

variable {env : Env} {x y : String} {t p : Ty} {s₀ s s' : State} {id : Int} {σ : String → Ty}

theorem models (h : Appends env x y t s₀ s s' id) (hσ : Models σ s'.bindings) :
    Models σ s₀.bindings ∧ σ x = t.inst σ ∧
      (s'.bindings.subst false (.param y)).inst σ = σ x := by
  obtain ⟨hσs, hx, hy⟩ := (h.appended.models σ).1 hσ
  refine ⟨h.inside.models hσs, hx, ?_⟩
  rw [h.sound.wf.inst_subst hσ, Ty.inst, hy, hx]

theorem not_below_fresh (h : Appends env x y t s₀ s s' id) :
    ¬ s'.bindings.Below (s'.bindings.subst false (.param y)) (freshVar s'.nextVar) := by
  have hlist : (Ty.list (s'.bindings.subst false (.param y))).Over (inUse s'.nextVar) :=
    h.sound.types id _ h.result
  exact h.sound.not_below_fresh (Nat.le_refl _) hlist

theorem not_below (h : Appends env x y t s₀ s s' id) :
    ¬ s'.bindings.Below (s'.bindings.subst false (.param y)) (.param x) := by
  intro hb
  obtain ⟨q, hq, hreach⟩ := hb.exists_reaches h.sound.wf.keys
  have hfree := (h.sound.wf.mem_params_subst q hq).2
  by_cases hqx : q = x
  · rw [hqx, h.appended.bound] at hfree
    cases hfree
  · exact not_below_of_free hfree (Ne.symm hqx) (.of_reaches hreach)

theorem subst_result (h : Appends env x y t s₀ s s' id) :
    s'.bindings.subst false (.param y) = t.inst (s'.bindings.solution false) := by
  rw [← h.sound.wf.keys.subst_eq_inst, h.sound.wf.subst_eq_subst_iff]
  intro σ hσ
  exact ((h.appended.models σ).1 hσ).2.2

/-- If the condition has a resolved type, then the conditional only adds to what is asked of
instantiations. -/
theorem models_conditional {m : Bindings} (h : Appends env x y t s₀ s s' id)
    (hp : p.Over (inUse s'.nextVar)) (hres : s'.bindings.Resolved p)
    (hassign : s'.bindings.assignAll?
      [p, .list (s'.bindings.subst false (.param y)), .list (.param x)]
      [.bool, freshVar s'.nextVar, freshVar s'.nextVar] = some m) (hσ : Models σ m) :
    Models σ s'.bindings ∧ σ (varName s'.nextVar) = .list (σ x) := by
  have hwf := h.sound.wf
  obtain ⟨k, l, m₁, h₁, hq₁, havoids, h₂⟩ := assignAll?_conditional hwf
    (h.sound.find?_fresh (Nat.le_refl _)) (h.sound.not_below_fresh (Nat.le_refl _) hp)
    h.not_below_fresh hassign
  have hwf₁ := (assignIn_rewrites (.all _) trivial trivial h₁).wf hwf
  have hmodels : ∀ σ, Models σ m₁ → Models σ s'.bindings :=
    fun σ hσ => hσ.of_assignIn_bool hwf hres h₁
  have hx : ∀ σ, Models σ m₁ → σ x = (s'.bindings.subst false (.param y)).inst σ :=
    fun σ hσ => (h.models (hmodels σ hσ)).2.2.symm
  obtain ⟨hσ₁, hq⟩ := (models_branches hwf₁ hq₁ (havoids _ h.not_below_fresh) hx h₂ σ).1 hσ
  exact ⟨hmodels σ hσ₁, hq⟩

theorem find?_conditional {m : Bindings} (h : Appends env x y t s₀ s s' id)
    (hp : p.Over (inUse s'.nextVar)) (hpx : ¬ s'.bindings.Below p (.param x))
    (ht : ∀ v, .typeOf v ∈ t.parts → v.params = [])
    (hassign : s'.bindings.assignAll?
      [p, .list (s'.bindings.subst false (.param y)), .list (.param x)]
      [.bool, freshVar s'.nextVar, freshVar s'.nextVar] = some m) :
    m.find? (.param x) = some t ∧ m.find? (freshVar s'.nextVar) = some (.list (.param x)) := by
  have hwf := h.sound.wf
  obtain ⟨k, l, m₁, h₁, hq₁, havoids, h₂⟩ := assignAll?_conditional hwf
    (h.sound.find?_fresh (Nat.le_refl _)) (h.sound.not_below_fresh (Nat.le_refl _) hp)
    h.not_below_fresh hassign
  have hwf₁ := (assignIn_rewrites (.all _) trivial trivial h₁).wf hwf
  -- the condition does not lead to `x`
  have hbool : ¬ s'.bindings.Below .bool (.param x) := not_below_of_closed hwf.keys rfl
  obtain ⟨hx₁, havoids₁⟩ := (assignIn_rewrites (closed_not_below _ x) hpx hbool h₁).avoids
  rw [h.appended.bound] at hx₁
  have hknown : (Ty.param x).Over (inUse s'.nextVar) := (h.sound.bound _ t h.appended.bound).1
  have hxq := h.sound.not_below_fresh (Nat.le_refl _) hknown
  have hne : varName s'.nextVar ≠ x := by
    rintro rfl
    exact hxq (.refl _ _)
  refine find?_branches hwf₁ hne (havoids _ h.not_below_fresh) (havoids _ hxq) hx₁
    (havoids₁ _ h.not_below) ?_ h₂
  rw [h.subst_result]
  cases htp : t.isParam with
  | true =>
    obtain ⟨q, rfl⟩ : ∃ q, t = .param q := by cases t <;> simp_all [Ty.isParam]
    exact .inl fun v => by simp [Ty.lessSpecific]
  | false =>
    refine .inr ⟨?_, Ty.lessSpecific_inst _ ht⟩
    cases t <;> simp_all [Ty.isParam, Ty.inst]

theorem resolved (h : Appends env x y t s₀ s s' id) (hp : p.Over (inUse s.nextVar))
    (hpx : x ∉ p.params) (hres : s.bindings.Resolved p) : s'.bindings.Resolved p := by
  rintro q rfl
  have hqx : q ≠ x := fun heq => hpx (heq ▸ List.mem_singleton_self q)
  have hqy : q ≠ y := by
    rintro rfl
    exact Nat.lt_irrefl _ (varName_mem_inUse.1 (h.fresh ▸ hp q (List.mem_singleton_self q)))
  rw [h.appended.other q hqx hqy]
  exact hres q rfl

end Appends

def Collects (x : String) (t : Ty) (id : Int) (s : State) : Prop :=
  ∀ σ, Models σ s.bindings → (s.typeAt id).inst σ = .list (σ x) ∧ σ x = t.inst σ

section Steps

variable {env : Env} {x v : String} {s₀ s' : State} {p t e' : Expr} {id i j k l n : Int}

theorem Accumulates.collects_append (h₀ : Accumulates env x s₀)
    (hn : Build.accuName ∉ t.freeNames {})
    (hc : Completes env s₀ (.call id "_+_" [.ident i Build.accuName, .list j [t]]) e' s')
    (hr : s'.reports = []) : ∃ u, s'.types.find? t.id = some u ∧ Collects x u id s' := by
  obtain ⟨s₁, t', s₂, y, u, -, -, hu, hgrows, happ⟩ := h₀.append h₀.inside hn hc hr
  refine ⟨u, hgrows.types _ _ hu, fun σ hσ => ?_⟩
  obtain ⟨-, hx, hy⟩ := happ.models hσ
  rw [typeAt, happ.result, Option.getD_some, Ty.inst, hy]
  exact ⟨rfl, hx⟩

/-- An element of type `u` was appended under a condition of type `c`. The check of the condition
ended in `s₁`, that of the element in `s₂`, and that of the append in `s₃`. -/
structure AppendsIf (env : Env) (x y : String) (c u : Ty) (p t : Expr) (id : Int)
    (s₀ s₁ s₂ s₃ s' : State) : Prop where
  condition : ∃ p', Completes env s₀ p p' s₁
  conditionType : s₁.types.find? p.id = some c
  apart : s₀.bindings.Apart x c
  known : c.Over (inUse s₁.nextVar)
  element : ∃ s t', Inert s₁ s ∧ Completes env s t t' s₂
  elementType : s₂.types.find? t.id = some u
  append : ∃ k, Appends env x y u s₀ s₂ s₃ k
  grows : Grows s₂ s₃
  grows_end : Grows s₃ s'
  assigns : s₃.bindings.assignAll?
    [c, .list (s₃.bindings.subst false (.param y)), .list (.param x)]
    [.bool, freshVar s₃.nextVar, freshVar s₃.nextVar] = some s'.bindings
  result : s'.types.find? id = some (s'.bindings.subst false (freshVar s₃.nextVar))

theorem Accumulates.appendIf (h₀ : Accumulates env x s₀) (hp : Build.accuName ∉ p.freeNames {})
    (hn : Build.accuName ∉ t.freeNames {})
    (hc : Completes env s₀ (.call id "_?_:_" [p,
      .call k "_+_" [.ident i Build.accuName, .list j [t]], .ident l Build.accuName]) e' s')
    (hr : s'.reports = []) :
    ∃ y c u s₁ s₂ s₃, AppendsIf env x y c u p t id s₀ s₁ s₂ s₃ s' := by
  obtain ⟨d, hd, hdty⟩ := h₀.accu
  obtain ⟨p', s₁, a', s₃, hcond, happend, hgrows, hr₃, hassign⟩ :=
    hc.conditional_inv h₀.toHasStandard hd hr
  obtain ⟨h₁, c, hcty, hapart⟩ := h₀.body h₀.inside hp hcond
  obtain ⟨s, t', s₂, y, u, hinert, ht, hu, hgrows₂, happ⟩ := h₀.append h₁ hn happend hr₃
  obtain ⟨hassign, hid⟩ := hassign c _ hcty happ.result
  rw [hdty] at hassign
  exact ⟨y, c, u, s₁, s₂, s₃,
    { condition := ⟨p', hcond⟩
      conditionType := hcty
      apart := hapart
      known := h₁.sound.types _ _ hcty
      element := ⟨s, t', hinert, ht⟩
      elementType := hu
      append := ⟨k, happ⟩
      grows := hgrows₂
      grows_end := hgrows
      assigns := hassign
      result := hid }⟩

namespace AppendsIf

variable {y : String} {c u : Ty} {s₁ s₂ s₃ : State}

theorem known_element (h : AppendsIf env x y c u p t id s₀ s₁ s₂ s₃ s') :
    c.Over (inUse s₂.nextVar) := by
  obtain ⟨s, t', hinert, ht⟩ := h.element
  exact h.known.mono (inUse_mono (hinert.nextVar ▸ ht.advances.nextVar))

theorem known_append (h : AppendsIf env x y c u p t id s₀ s₁ s₂ s₃ s') :
    c.Over (inUse s₃.nextVar) :=
  h.known_element.mono (inUse_mono h.grows.nextVar)

end AppendsIf

theorem Accumulates.collects_appendIf (h₀ : Accumulates env x s₀)
    (hp : Build.accuName ∉ p.freeNames {}) (hn : Build.accuName ∉ t.freeNames {})
    (hc : Completes env s₀ (.call id "_?_:_" [p,
      .call k "_+_" [.ident i Build.accuName, .list j [t]], .ident l Build.accuName]) e' s')
    (hr : s'.reports = []) :
    ∃ u, s'.types.find? t.id = some u ∧
      ((∀ w, .typeOf w ∈ u.parts → w.params = []) → Collects x u id s') := by
  obtain ⟨y, c, u, s₁, s₂, s₃, h⟩ := h₀.appendIf hp hn hc hr
  obtain ⟨a, happ⟩ := h.append
  refine ⟨u, h.grows_end.types _ _ (h.grows.types _ _ h.elementType), fun hvalues σ hσ => ?_⟩
  have hcy := happ.inside.sound.not_below_fresh (Nat.le_refl _) h.known_element
  have hcx : ¬ s₃.bindings.Below c (.param x) :=
    happ.appended.avoids c (happ.inside.not_below h₀ h.apart.2) (happ.fresh ▸ hcy)
  obtain ⟨hx, hq⟩ := happ.find?_conditional h.known_append hcx hvalues h.assigns
  rw [typeAt, h.result, Option.getD_some, (h₀.sound.completes hc).1.wf.inst_subst hσ]
  exact ⟨hσ _ _ hq, hσ _ _ hx⟩

theorem Accumulates.collects_select {d : IdentDecl} (h₀ : Accumulates env x s₀)
    (hp : Build.accuName ∉ p.freeNames {}) (hv : Build.accuName ∉ (Expr.ident n v).freeNames {})
    (hd : env.lookupIdent? v = some d)
    (hc : Completes env s₀ (.call id "_?_:_" [p,
      .call k "_+_" [.ident i Build.accuName, .list j [.ident n v]],
      .ident l Build.accuName]) e' s')
    (hr : s'.reports = []) :
    Collects x d.ty id s' ∧ ∀ σ, Models σ s'.bindings → Models σ s₀.bindings := by
  obtain ⟨y, c, u, s₁, s₂, s₃, h⟩ := h₀.appendIf hp hv hc hr
  obtain ⟨a, happ⟩ := h.append
  obtain ⟨p', hcond⟩ := h.condition
  obtain ⟨s, t', hinert, ht⟩ := h.element
  obtain ⟨hinert₂, htype⟩ := ht.ident_inv hd
  obtain rfl : d.ty = u := Option.some_inj.1 (htype.symm.trans h.elementType)
  have hresolved := hcond.resolved h₀.sound.wf fun w hw d hd => (h₀.gives hp w hw d hd).resolved
  rw [typeAt, h.conditionType, Option.getD_some] at hresolved
  -- the check of the element binds nothing, so that the condition is still resolved after it
  have hbindings : s₂.bindings = s₁.bindings := hinert₂.bindings.trans hinert.bindings
  have hmodels : ∀ σ, Models σ s'.bindings →
      Models σ s₃.bindings ∧ σ (varName s₃.nextVar) = .list (σ x) := fun σ hσ =>
    happ.models_conditional h.known_append
      (happ.resolved h.known_element h.apart.2 (hbindings ▸ hresolved)) h.assigns hσ
  refine ⟨fun σ hσ => ?_, fun σ hσ => (happ.models (hmodels σ hσ).1).1⟩
  rw [typeAt, h.result, Option.getD_some, (h₀.sound.completes hc).1.wf.inst_subst hσ]
  exact ⟨(hmodels σ hσ).2, (happ.models (hmodels σ hσ).1).2.1⟩

end Steps

end ExprTyping
