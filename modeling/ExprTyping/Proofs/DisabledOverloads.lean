import ExprTyping.Proofs.FreshVariables
import ExprTyping.Proofs.Mirroring

namespace ExprTyping

open Checker State

def IdentDecl.rename (φ : String → String) (d : IdentDecl) : IdentDecl :=
  { d with ty := d.ty.rename φ }

/-- Apart from the names of type variables, the two environments differ only in that the narrow one
has the overloads with the id `x` disabled. -/
structure Env.Mirrors (x : String) (φ : String → String) (n : Nat) (env wide : Env) : Prop where
  container : wide.container = env.container
  provider : wide.provider = env.provider
  policy : wide.options.policy = env.options.policy
  disabled : ∀ id, env.options.isDisabled id = (wide.options.isDisabled id || id == x)
  function : ∀ name, wide.scopes.findFunction? name = env.scopes.findFunction? name
  ident : ∀ name, wide.lookupCandidate? name = (env.lookupCandidate? name).map (·.rename φ)
  known : ∀ name d, env.lookupCandidate? name = some d → d.ty.Over (inUse n)
  overload : ∀ name f, env.scopes.findFunction? name = some f → ∀ o ∈ f.overloads, o.VariableFree
  field : ∀ m f t, env.provider.field? m f = some t → t.Over (inUse 0)

namespace Env.Mirrors

variable {x : String} {φ φ₁ : String → String} {n n₁ : Nat} {env wide : Env}

theorem extend (h : env.Mirrors x φ n wide) (hext : Extends n φ n₁ φ₁) :
    env.Mirrors x φ₁ n₁ wide where
  container := h.container
  provider := h.provider
  policy := h.policy
  disabled := h.disabled
  function := h.function
  ident name := by
    rw [h.ident]
    cases hd : env.lookupCandidate? name with
    | none => rfl
    | some d => simp only [Option.map_some, IdentDecl.rename, hext.rename (h.known name d hd)]
  known name d hd := (h.known name d hd).mono (inUse_mono hext.le)
  overload := h.overload
  field := h.field

theorem bind (h : env.Mirrors x φ n wide) {d : IdentDecl} (hd : d.ty.Over (inUse n)) :
    (env.enter.bind d).Mirrors x φ n (wide.enter.bind (d.rename φ)) where
  container := h.container
  provider := h.provider
  policy := h.policy
  disabled := h.disabled
  function := h.function
  ident name := by
    rw [TypeInvariant.lookupCandidate?_bind, TypeInvariant.lookupCandidate?_bind, h.ident]
    exact (apply_ite (Option.map (IdentDecl.rename φ)) (d.name = name) (some d) _).symm
  known name e he := by
    rw [TypeInvariant.lookupCandidate?_bind] at he
    split at he
    · cases he
      exact hd
    · exact h.known name e he
  overload := h.overload
  field := h.field

theorem lookupIdent? (h : env.Mirrors x φ n wide) (name : String) :
    wide.lookupIdent? name = (env.lookupIdent? name).map (·.rename φ) := by
  rw [Env.lookupIdent?, Env.lookupIdent?, h.container, List.map_findSome?]
  exact congrArg (List.findSome? · _) (funext h.ident)

theorem known_lookupIdent (h : env.Mirrors x φ n wide) {name : String} {d : IdentDecl}
    (hd : env.lookupIdent? name = some d) : d.ty.Over (inUse n) := by
  obtain ⟨c, -, hc⟩ := List.exists_of_findSome?_eq_some hd
  exact h.known c d hc

theorem selectedDecl? (h : env.Mirrors x φ n wide) (operand : Expr) (field : String) :
    Checker.selectedDecl? wide operand field =
      (Checker.selectedDecl? env operand field).map (·.rename φ) := by
  rw [Checker.selectedDecl?, Checker.selectedDecl?, Option.map_bind]
  exact congrArg (Option.bind _) (funext fun _ => h.lookupIdent? _)

theorem lookupFunction? (h : env.Mirrors x φ n wide) (name : String) :
    wide.lookupFunction? name = env.lookupFunction? name := by
  rw [Env.lookupFunction?, Env.lookupFunction?, h.container]
  exact congrArg (List.findSome? · _) (funext h.function)

theorem namespacedFunction? (h : env.Mirrors x φ n wide) (target : Expr) (f : String) :
    Checker.namespacedFunction? wide target f = Checker.namespacedFunction? env target f :=
  congrArg (Option.bind _) (funext fun _ => h.lookupFunction? _)

theorem variableFree (h : env.Mirrors x φ n wide) {name : String} {f : FunctionDecl}
    (hf : env.lookupFunction? name = some f) : ∀ o ∈ f.overloads, o.VariableFree := by
  obtain ⟨c, -, hc⟩ := List.exists_of_findSome?_eq_some hf
  exact h.overload c f hc

end Env.Mirrors

namespace Checker

variable {x : String} {φ φ₁ : String → String} {env wide : Env} {s w w₁ : State} {id : Int}
  {t u : Ty}

section Helpers

variable (henv : env.Mirrors x φ s.nextVar wide) (hs : Mirrors φ s w)

include henv hs

theorem fieldType_mirrored {message field : String}
    (hr : (fieldType wide w id message field).2.reports = []) :
    MirrorsTyped φ (fieldType env s id message field) (fieldType wide w id message field) := by
  unfold fieldType at hr ⊢
  rw [henv.provider] at hr ⊢
  cases hm : env.provider.message? message with
  | none => simp [hm, report] at hr
  | some t =>
    simp only [hm] at hr ⊢
    cases hf : env.provider.field? message field with
    | none => simp [hf, report] at hr
    | some t =>
      have ht := henv.field message field t hf
      exact ⟨hs, (hs.linked.rename_eq ht).symm, ht.mono (inUse_mono (Nat.zero_le _))⟩

theorem selection_mirrored (ht : t.Over (inUse s.nextVar)) (id : Int) (field : String)
    (hr : (selection wide w id (t.rename φ) field).2.reports = []) :
    MirrorsTyped φ (selection env s id t field) (selection wide w id (t.rename φ) field) := by
  have hdyn : Ty.dyn.Over (inUse s.nextVar) := Ty.over_of_params_eq_nil rfl
  cases t with
  | map k v => exact ⟨hs, rfl, ht.of_mem_children (by simp [Ty.children, selection])⟩
  | message m => exact fieldType_mirrored henv hs hr
  | param p => exact ⟨(hs.unify hdyn ht).2, rfl, Ty.over_of_params_eq_nil rfl⟩
  | dyn => exact ⟨hs, rfl, hdyn⟩
  | error => exact ⟨hs, rfl, hdyn⟩
  | _ => simp [selection, Ty.rename, Ty.inst, report] at hr

theorem join_mirrored {previous previous' : Option Ty}
    (hp : MirrorsOption φ s.nextVar previous previous') (hu : u.Over (inUse s.nextVar)) (id : Int)
    (hr : (join wide w id previous' (u.rename φ)).2.reports = []) :
    MirrorsTyped φ (join env s id previous u) (join wide w id previous' (u.rename φ)) := by
  obtain ⟨rfl, hknown⟩ := hp
  cases previous with
  | none => exact ⟨hs, rfl, hu⟩
  | some t =>
    have ht := hknown t rfl
    obtain ⟨hb, h₁⟩ := hs.unify ht hu
    have hnext := (quiet_unify s t u).nextVar
    simp only [Option.map_some, join, henv.policy] at hr ⊢
    generalize s.unify t u = a, w.unify (t.rename φ) (u.rename φ) = b at hb h₁ hnext hr ⊢
    obtain ⟨c, s₁⟩ := a
    obtain ⟨c', w₁⟩ := b
    cases hb
    cases c with
    | true =>
      refine ⟨h₁, Ty.mostGeneral_rename hs.linked.agree.inj ht hu, ?_⟩
      exact (Bindings.mostGeneral_of_both (A := Ty.Over _) ht hu).mono (inUse_mono hnext)
    | false =>
      cases hpol : env.options.policy with
      | dynamic => exact ⟨h₁, rfl, Ty.over_of_params_eq_nil rfl⟩
      | homogeneous => simp [hpol, report] at hr

omit henv

theorem messageType_mirrored (ht : t.Over (inUse s.nextVar))
    (hr : (messageType w id (t.rename φ)).2.reports = []) :
    MirrorsTyped φ (messageType s id t) (messageType w id (t.rename φ)) := by
  cases t with
  | error => exact ⟨hs, rfl, ht⟩
  | typeOf t =>
    cases t with
    | message m => exact ⟨hs, rfl, ht⟩
    | _ => simp [messageType, Ty.rename, Ty.inst, report] at hr
  | _ => simp [messageType, Ty.rename, Ty.inst, report] at hr

theorem iterType_mirrored (ht : t.Over (inUse s.nextVar)) (id : Int)
    (hr : (iterType w id (t.rename φ)).2.reports = []) :
    MirrorsTyped φ (iterType s id t) (iterType w id (t.rename φ)) := by
  have hdyn : Ty.dyn.Over (inUse s.nextVar) := Ty.over_of_params_eq_nil rfl
  cases t with
  | list t => exact ⟨hs, rfl, ht⟩
  | map k v => exact ⟨hs, rfl, ht.of_mem_children (by simp [Ty.children, iterType])⟩
  | dyn | error | param p => exact ⟨(hs.unify hdyn ht).2, rfl, Ty.over_of_params_eq_nil rfl⟩
  | _ => simp [iterType, Ty.rename, Ty.inst, report] at hr

include henv

theorem initField_mirrored (field : String) {valueId : Int}
    (hr : (initField wide w (t.rename φ) id field valueId).reports = []) :
    Mirrors φ (initField env s t id field valueId)
      (initField wide w (t.rename φ) id field valueId) := by
  have hvalue := hs.known_typeAt valueId
  have hother : ∀ c c',
      (w.require ((s.typeAt valueId).rename φ) (Ty.error.rename φ) id c').reports = [] →
      Mirrors φ (s.require (s.typeAt valueId) .error id c)
        (w.require ((s.typeAt valueId).rename φ) (Ty.error.rename φ) id c') := fun c c' =>
    hs.require hvalue (Ty.over_of_params_eq_nil rfl)
  cases t with
  | message m =>
    simp only [initField, Ty.rename, Ty.inst] at hr ⊢
    have hq := quiet_fieldType wide w id m field
    have hq' := quiet_require (fieldType wide w id m field).2 (w.typeAt valueId)
      (fieldType wide w id m field).1 id
      (.fieldTypeMismatch field (fieldType wide w id m field).1 (w.typeAt valueId))
    have hf := fieldType_mirrored henv hs (hq'.reports_eq_nil hr)
    rw [hs.typeAt, hf.type] at hr ⊢
    have hle := inUse_mono (quiet_fieldType env s id m field).nextVar
    exact hf.state.require (hvalue.mono hle) hf.known hr
  | _ =>
    simp only [initField, Ty.rename, Ty.inst, hs.typeAt] at hr ⊢
    exact hother _ _ hr

end Helpers

structure Clean (x : String) (s : State) : Prop where
  reports : s.reports = []
  references : ∀ i q, s.references.find? i = some q → x ∉ q.overloads

theorem Clean.before (h : Clean x w₁) (ha : Advances w w₁) : Clean x w :=
  ⟨ha.reports_eq_nil h.reports, fun i q hq => h.references i q (ha.references i q hq)⟩

section Annotations

variable (henv : env.Mirrors x φ s.nextVar wide) (hs : Mirrors φ s w)

include hs

theorem annotateIdent_mirrored {d : IdentDecl} (hd : d.ty.Over (inUse s.nextVar))
    (h : annotateIdent w id (d.rename φ) = .ok w₁) : ∃ s₁, annotateIdent s id d = .ok s₁ ∧
      Mirrors φ s₁ w₁ ∧ s₁.nextVar = s.nextVar := by
  simp only [annotateIdent, bind_eq_ok] at h ⊢
  obtain ⟨w₂, hset, href⟩ := h
  obtain ⟨s₂, hset', h₂, hn₂⟩ := hs.setType hd hset
  obtain ⟨s₁, href', h₁, hn₁⟩ := h₂.setReference href
  exact ⟨s₁, ⟨s₂, hset', href'⟩, h₁, hn₁.trans hn₂⟩

include henv

theorem messageLiteral_mirrored {name name' : String}
    (h : messageLiteral wide w id name = .ok (name', u, w₁)) (hr : w₁.reports = []) :
    ∃ t s₁, messageLiteral env s id name = .ok (name', t, s₁) ∧ MirrorsTyped φ (t, s₁) (u, w₁) ∧
      s.nextVar ≤ s₁.nextVar := by
  rw [messageLiteral, henv.lookupIdent?] at h
  rw [messageLiteral]
  cases hd : env.lookupIdent? name with
  | none =>
    rw [hd] at h
    cases h
    simp [reportUndeclared, report] at hr
  | some d =>
    simp only [hd, Option.map_some, bind_eq_ok, pure_eq_ok] at h ⊢
    obtain ⟨w₂, href, heq⟩ := h
    cases heq
    obtain ⟨s₂, href', h₂, hn⟩ := hs.setReference href
    have hknown : d.ty.Over (inUse s₂.nextVar) := hn ▸ henv.known_lookupIdent hd
    refine ⟨_, _, ⟨s₂, href', rfl⟩, messageType_mirrored h₂ hknown hr, ?_⟩
    exact hn ▸ (quiet_messageType s₂ id d.ty).nextVar

theorem resolveCall_mirrored {f : FunctionDecl} {receiver : Bool} {args : List Int}
    (hf : ∀ o ∈ f.overloads, o.VariableFree)
    (h : resolveCall wide w id f receiver args = .ok w₁) (hc : Clean x w₁) :
    ∃ φ₁ s₁, resolveCall env s id f receiver args = .ok s₁ ∧ Mirrors φ₁ s₁ w₁ ∧
      Extends s.nextVar φ s₁.nextVar φ₁ := by
  have htypes : args.map w.typeAt = (args.map s.typeAt).map (Ty.rename φ) := by
    rw [List.map_map]
    exact List.map_congr_left fun i _ => hs.typeAt i
  have hargs : ∀ t ∈ args.map s.typeAt, t.Over (inUse s.nextVar) :=
    List.forall_mem_map.2 fun i _ => hs.known_typeAt i
  -- the narrow side tries what the wide one tries, without `x`
  have htried : (f.overloads.filter fun o =>
      !env.options.isDisabled o.id && o.receiver == receiver) =
      (f.overloads.filter fun o => !wide.options.isDisabled o.id && o.receiver == receiver).filter
        fun o => o.id != x := by
    rw [List.filter_filter]
    refine List.filter_congr fun o _ => ?_
    simp only [henv.disabled, Bool.not_or, bne, Bool.and_comm, Bool.and_left_comm]
  simp only [resolveCall, Trial.all, htried, htypes] at h ⊢
  generalize hos : (f.overloads.filter fun o =>
    !wide.options.isDisabled o.id && o.receiver == receiver) = os at h ⊢
  have hfree : ∀ o ∈ os, o.VariableFree := fun o ho => hf o (List.mem_of_mem_filter (hos ▸ ho))
  split at h
  · next r hr =>
    rw [bind_eq_ok] at h
    obtain ⟨w₂, hset, href⟩ := h
    have hx : x ∉ Trial.ids (os.foldl (·.overload ((args.map s.typeAt).map (Ty.rename φ)) ·)
        ⟨w.bindings, w.nextVar, none⟩) := by
      obtain ⟨q, hq, -, hover⟩ := setReference_find? href
      rw [Trial.ids, hr]
      exact fun hmem => hc.references id q hq (hover ▸ hmem)
    obtain ⟨φ₁, h₁, hext⟩ := Trial.Mirrors.foldl (t := ⟨s.bindings, s.nextVar, none⟩)
      ⟨hs.linked, rfl, by simp⟩ hfree hargs hx
    have hfound := h₁.found.symm
    rw [hr, Option.map_eq_some_iff] at hfound
    obtain ⟨r₀, hr₀, rfl⟩ := hfound
    obtain ⟨s₂, hset', h₂, hn₂⟩ := (hs.extend hext h₁.linked).setType (h₁.known r₀ hr₀) hset
    obtain ⟨s₁, href', hs₁, hn₁⟩ := h₂.setReference href
    refine ⟨φ₁, s₁, ?_, hs₁, hn₁ ▸ hn₂ ▸ hext⟩
    simp only [hr₀, bind_eq_ok]
    exact ⟨s₂, hset', href'⟩
  · have hreports := (grows_setType h).1.reports
    rw [hc.reports, List.prefix_nil] at hreports
    simp [report] at hreports

end Annotations

def Mirrored (x : String) (wide : Env) (w : State) (e e' : Expr) (w₁ : State) : Prop :=
  ∀ φ env s, env.Mirrors x φ s.nextVar wide → Mirrors φ s w → Clean x w₁ →
    ∃ φ₁ s₁, Completes env s e e' s₁ ∧ Mirrors φ₁ s₁ w₁ ∧ Extends s.nextVar φ s₁.nextVar φ₁

/-- A wide check that completes, with the narrow check that goes with it. -/
def Paired (x : String) (wide : Env) (w : State) (e e' : Expr) (w₁ : State) : Prop :=
  Completes wide w e e' w₁ ∧ Mirrored x wide w e e' w₁

section Lists

variable (henv : env.Mirrors x φ s.nextVar wide) (hs : Mirrors φ s w) (hc : Clean x w₁)

include henv hs hc

theorem InTurn.mirrored {es es' : List Expr}
    (h : InTurn (Paired x wide) w es es' w₁) :
    ∃ φ₁ s₁, InTurn (Completes env) s es es' s₁ ∧ Mirrors φ₁ s₁ w₁ ∧
      Extends s.nextVar φ s₁.nextVar φ₁ := by
  induction h generalizing φ s with
  | nil => exact ⟨φ, s, .nil, hs, .refl _ _⟩
  | cons he hes ih =>
    have ha := (hes.mono fun _ _ _ _ h => h.1.advances).advances
    obtain ⟨φ₁, s₁, he₁, h₁, hext₁⟩ := he.2 φ env s henv hs (hc.before ha)
    obtain ⟨φ₂, s₂, hes₂, h₂, hext₂⟩ := ih (henv.extend hext₁) h₁ hc
    exact ⟨φ₂, s₂, .cons he₁ hes₂, h₂, hext₁.trans hext₂⟩

theorem Joined.mirrored {es es' : List Expr} {t u u' : Option Ty}
    (h : Joined (Paired x wide) wide w u es es' u' w₁) (ht : MirrorsOption φ s.nextVar t u) :
    ∃ φ₁ s₁ t', Joined (Completes env) env s t es es' t' s₁ ∧ Mirrors φ₁ s₁ w₁ ∧
      Extends s.nextVar φ s₁.nextVar φ₁ ∧ MirrorsOption φ₁ s₁.nextVar t' u' := by
  induction h generalizing φ s t with
  | nil => exact ⟨φ, s, t, .nil, hs, .refl _ _, ht⟩
  | @cons w w₁ w₂ w₃ e e' es es' u u' v he hj hes ih =>
    have ha := (hes.mono fun _ _ _ _ h => h.1.advances).advances
    have hc₂ := hc.before ha
    have hquiet := (quiet_join ..).of_eq hj
    obtain ⟨φ₁, s₁, he₁, h₁, hext₁⟩ := he.2 φ env s henv hs (hc₂.before hquiet.advances)
    have henv₁ := henv.extend hext₁
    rw [h₁.typeAt] at hj
    have hjoin := join_mirrored henv₁ h₁ (ht.extend hext₁) (h₁.known_typeAt e.id) e.id
      (by rw [hj]; exact hc₂.reports)
    rw [hj] at hjoin
    have hext₂ := Extends.of_le (φ := φ₁) (quiet_join env s₁ e.id t (s₁.typeAt e.id)).nextVar
    obtain ⟨φ₃, s₃, t', hes₃, h₃, hext₃, ht'⟩ :=
      ih (henv₁.extend hext₂) hjoin.state hc hjoin.option
    exact ⟨φ₃, s₃, t', .cons he₁ rfl hes₃, h₃, hext₁.trans (hext₂.trans hext₃), ht'⟩

theorem JoinedEntries.mirrored {es es' : List Entry} {k v l u l' u' : Option Ty}
    (h : JoinedEntries (Paired x wide) wide w l u es es' l' u' w₁)
    (hk : MirrorsOption φ s.nextVar k l) (hv : MirrorsOption φ s.nextVar v u) :
    ∃ φ₁ s₁ k' v', JoinedEntries (Completes env) env s k v es es' k' v' s₁ ∧ Mirrors φ₁ s₁ w₁ ∧
      Extends s.nextVar φ s₁.nextVar φ₁ ∧ MirrorsOption φ₁ s₁.nextVar k' l' ∧
      MirrorsOption φ₁ s₁.nextVar v' u' := by
  induction h generalizing φ s k v with
  | nil => exact ⟨φ, s, k, v, .nil, hs, .refl _ _, hk, hv⟩
  | @cons w w₁ w₂ w₃ w₄ w₅ i a a' b b' es es' l u l' u' tk tv ha hjk hb hjv hes ih =>
    have hrest := (hes.mono fun _ _ _ _ h => h.1.advances).advances
    have hc₄ := hc.before hrest
    have hquiet := (quiet_join ..).of_eq hjk
    have hquiet' := (quiet_join ..).of_eq hjv
    have hc₃ := hc₄.before hquiet'.advances
    have hc₂ := hc₃.before hb.1.advances
    -- the key
    obtain ⟨φ₁, s₁, ha₁, h₁, hext₁⟩ := ha.2 φ env s henv hs (hc₂.before hquiet.advances)
    have henv₁ := henv.extend hext₁
    rw [h₁.typeAt] at hjk
    have hkey := join_mirrored henv₁ h₁ (hk.extend hext₁) (h₁.known_typeAt a.id) a.id
      (by rw [hjk]; exact hc₂.reports)
    rw [hjk] at hkey
    have hext₂ := Extends.of_le (φ := φ₁) (quiet_join env s₁ a.id k (s₁.typeAt a.id)).nextVar
    have henv₂ := henv₁.extend hext₂
    -- the value
    obtain ⟨φ₃, s₃, hb₃, h₃, hext₃⟩ := hb.2 φ₁ env _ henv₂ hkey.state hc₃
    have hext := hext₁.trans (hext₂.trans hext₃)
    rw [h₃.typeAt] at hjv
    have hvalue := join_mirrored (henv.extend hext) h₃ (hv.extend hext)
      (h₃.known_typeAt b.id) b.id (by rw [hjv]; exact hc₄.reports)
    rw [hjv] at hvalue
    have hext₄ := Extends.of_le (φ := φ₃) (quiet_join env s₃ b.id v (s₃.typeAt b.id)).nextVar
    obtain ⟨φ₅, s₅, k', v', hes₅, h₅, hext₅, hkv⟩ := ih (henv.extend (hext.trans hext₄))
      hvalue.state hc (hkey.option.extend (hext₃.trans hext₄)) hvalue.option
    exact ⟨φ₅, s₅, k', v', .cons ha₁ rfl hb₃ rfl hes₅, h₅, hext.trans (hext₄.trans hext₅), hkv⟩

theorem Initialized.mirrored {fs fs' : List FieldInit}
    (h : Initialized (Paired x wide) wide (t.rename φ) w fs fs' w₁)
    (ht : t.Over (inUse s.nextVar)) :
    ∃ φ₁ s₁, Initialized (Completes env) env t s fs fs' s₁ ∧ Mirrors φ₁ s₁ w₁ ∧
      Extends s.nextVar φ s₁.nextVar φ₁ := by
  generalize hu : t.rename φ = u at h
  induction h generalizing φ s with
  | nil => exact ⟨φ, s, .nil, hs, .refl _ _⟩
  | @cons w w₁ w₂ i f e e' fs fs' he hfs ih =>
    have ha := (hfs.mono fun _ _ _ _ h => h.1.advances).advances
    have hc₁ := hc.before ha
    have hquiet := quiet_initField wide w₁ i u f e.id
    obtain ⟨φ₁, s₁, he₁, h₁, hext₁⟩ := he.2 φ env s henv hs (hc₁.before hquiet.advances)
    have henv₁ := henv.extend hext₁
    have hu₁ : t.rename φ₁ = u := (hext₁.rename ht).trans hu
    have hinit : Mirrors φ₁ (initField env s₁ t i f e.id) (initField wide w₁ u i f e.id) := by
      rw [← hu₁] at hc₁ ⊢
      exact initField_mirrored henv₁ h₁ f hc₁.reports
    have hext₂ := Extends.of_le (φ := φ₁) (quiet_initField env s₁ i t f e.id).nextVar
    have hext := hext₁.trans hext₂
    obtain ⟨φ₃, s₃, hfs₃, h₃, hext₃⟩ := ih (henv₁.extend hext₂) hinit hc
      (ht.mono (inUse_mono hext.le)) hu₁
    exact ⟨φ₃, s₃, .cons he₁ hfs₃, h₃, hext.trans hext₃⟩

end Lists

section Rules

theorem not_clean_of_annotateUndeclared {name : String}
    (h : annotateUndeclared wide w id name = .ok w₁) : ¬ Clean x w₁ := by
  simp only [annotateUndeclared, bind_eq_ok, pure_eq_ok] at h
  obtain ⟨w₂, -, rfl⟩ := h
  intro hc
  simpa [reportUndeclared, report] using hc.reports

theorem mirrored_select {operand operand' : Expr} {field : String} {testOnly : Bool}
    {w₂ w₃ : State} (hd : selectedDecl? wide operand field = none)
    (ho : Paired x wide w operand operand' w₂)
    (hsel : selection wide w₂ id (w₂.subst (w₂.typeAt operand.id)) field = (t, w₃))
    (hset : w₃.setType id (w₃.subst (if testOnly then .bool else t)) = .ok w₁) :
    Mirrored x wide w (.select id operand field testOnly) (.select id operand' field testOnly)
      w₁ := by
  intro φ env s henv hs hc
  have hc₃ := hc.before (advances_setType hset)
  have hquiet := (quiet_selection ..).of_eq hsel
  obtain ⟨φ₁, s₁, ho₁, h₁, hext₁⟩ := ho.2 φ env s henv hs (hc₃.before hquiet.advances)
  have hoperand := h₁.known_typeAt operand.id
  rw [h₁.typeAt, h₁.subst hoperand] at hsel
  have hsel₁ := selection_mirrored (henv.extend hext₁) h₁ (h₁.known_subst hoperand) id field
    (by rw [hsel]; exact hc₃.reports)
  have hext₂ := Extends.of_le (φ := φ₁)
    (quiet_selection env s₁ id (s₁.subst (s₁.typeAt operand.id)) field).nextVar
  rw [hsel] at hsel₁
  generalize hres : selection env s₁ id (s₁.subst (s₁.typeAt operand.id)) field = r at hsel₁ hext₂
  obtain ⟨u, s₂⟩ := r
  obtain ⟨h₂, rfl, hu⟩ := hsel₁
  have htype : (if testOnly then .bool else u : Ty).Over (inUse s₂.nextVar) := by
    split
    · exact Ty.over_of_params_eq_nil rfl
    · exact hu
  have hbool : (if testOnly then .bool else u.rename φ₁ : Ty) =
      (if testOnly then .bool else u : Ty).rename φ₁ := by
    cases testOnly <;> rfl
  rw [hbool, h₂.subst htype] at hset
  obtain ⟨s₃, hset₃, h₃, hn₃⟩ := h₂.setType (h₂.known_subst htype) hset
  have hd' : selectedDecl? env operand field = none := by simpa [henv.selectedDecl?] using hd
  exact ⟨φ₁, s₃, (Rule.select hd' ho₁ hres hset₃).completes, h₃,
    hext₁.trans (hext₂.trans (.of_le hn₃.ge))⟩

theorem mirrored_list {elems elems' : List Expr} {t : Option Ty} {u : Ty} {w₂ w₃ : State}
    (helems : Joined (Paired x wide) wide w none elems elems' t w₂) (hf : w₂.orFresh t = (u, w₃))
    (hset : w₃.setType id (.list u) = .ok w₁) :
    Mirrored x wide w (.list id elems) (.list id elems') w₁ := by
  intro φ env s henv hs hc
  have hc₃ := hc.before (advances_setType hset)
  have hquiet := (quiet_orFresh ..).of_eq hf
  obtain ⟨φ₂, s₂, t', helems₂, h₂, hext₂, ht⟩ :=
    helems.mirrored henv hs (hc₃.before hquiet.advances) (.none φ s.nextVar)
  obtain ⟨φ₃, h₃, hext₃⟩ := h₂.orFresh ht
  rw [hf] at h₃
  generalize hf₃ : s₂.orFresh t' = r at h₃ hext₃
  obtain ⟨u', s₃⟩ := r
  obtain ⟨h₃, rfl, hu⟩ := h₃
  obtain ⟨s₁, hset₁, h₁, hn₁⟩ := h₃.setType (t := .list u') hu hset
  exact ⟨φ₃, s₁, (Rule.list helems₂ hf₃ hset₁).completes, h₁,
    hext₂.trans (hext₃.trans (.of_le hn₁.ge))⟩

theorem mirrored_map {entries entries' : List Entry} {k v : Option Ty} {t u : Ty}
    {w₂ w₃ w₄ : State}
    (hentries : JoinedEntries (Paired x wide) wide w none none entries entries' k v w₂)
    (hk : w₂.orFresh k = (t, w₃)) (hv : w₃.orFresh v = (u, w₄))
    (hset : w₄.setType id (.map t u) = .ok w₁) :
    Mirrored x wide w (.map id entries) (.map id entries') w₁ := by
  intro φ env s henv hs hc
  have hquiet := (quiet_orFresh ..).of_eq hk
  have hquiet' := (quiet_orFresh ..).of_eq hv
  have hc₂ := hc.before (hquiet.advances.trans (hquiet'.advances.trans (advances_setType hset)))
  obtain ⟨φ₂, s₂, k', v', hentries₂, h₂, hext₂, hk₂, hv₂⟩ :=
    hentries.mirrored henv hs hc₂ (.none φ s.nextVar) (.none φ s.nextVar)
  obtain ⟨φ₃, h₃, hext₃⟩ := h₂.orFresh hk₂
  rw [hk] at h₃
  generalize hf₃ : s₂.orFresh k' = r at h₃ hext₃
  obtain ⟨t', s₃⟩ := r
  obtain ⟨h₃, rfl, ht⟩ := h₃
  obtain ⟨φ₄, h₄, hext₄⟩ := h₃.orFresh (hv₂.extend hext₃)
  rw [hv] at h₄
  generalize hf₄ : s₃.orFresh v' = r at h₄ hext₄
  obtain ⟨u', s₄⟩ := r
  obtain ⟨h₄, rfl, hu⟩ := h₄
  have hmap : (Ty.map t' u').Over (inUse s₄.nextVar) := by
    intro p hp
    rcases List.mem_append.1 hp with hp | hp
    · exact inUse_mono hext₄.le (ht p hp)
    · exact hu p hp
  have hrename : (Ty.map t' u').rename φ₄ = .map (t'.rename φ₃) (u'.rename φ₄) := by
    rw [← hext₄.rename ht]
    rfl
  rw [← hrename] at hset
  obtain ⟨s₁, hset₁, h₁, hn₁⟩ := h₄.setType hmap hset
  exact ⟨φ₄, s₁, (Rule.map hentries₂ hf₃ hf₄ hset₁).completes, h₁,
    hext₂.trans (hext₃.trans (hext₄.trans (.of_le hn₁.ge)))⟩

theorem mirrored_message {name name' : String} {fields fields' : List FieldInit} {w₂ w₃ : State}
    (hname : messageLiteral wide w id name = .ok (name', u, w₂))
    (hset : w₂.setType id (literalType u) = .ok w₃)
    (hfields : Initialized (Paired x wide) wide u w₃ fields fields' w₁) :
    Mirrored x wide w (.message id name fields) (.message id name' fields') w₁ := by
  intro φ env s henv hs hc
  have hc₃ := hc.before (hfields.mono fun _ _ _ _ h => h.1.advances).advances
  have hc₂ := hc₃.before (advances_setType hset)
  obtain ⟨t, s₂, hname₂, ⟨h₂, rfl, ht⟩, hle₂⟩ :=
    messageLiteral_mirrored henv hs hname hc₂.reports
  have hliteral : literalType (t.rename φ) = (literalType t).rename φ := by
    cases t with
    | message m => exact (Ty.rename_of_params_eq_nil (params_ofMessageName m)).symm
    | _ => rfl
  have hknown : (literalType t).Over (inUse s₂.nextVar) := by
    cases t with
    | message m => exact Ty.over_of_params_eq_nil (params_ofMessageName m)
    | _ => exact ht
  rw [hliteral] at hset
  obtain ⟨s₃, hset₃, h₃, hn₃⟩ := h₂.setType hknown hset
  have hext₃ : Extends s.nextVar φ s₃.nextVar φ := .of_le (hle₂.trans hn₃.ge)
  obtain ⟨φ₁, s₁, hfields₁, h₁, hext₁⟩ :=
    hfields.mirrored (henv.extend hext₃) h₃ hc (ht.mono (inUse_mono hn₃.ge))
  exact ⟨φ₁, s₁, (Rule.message hname₂ hset₃ hfields₁).completes, h₁, hext₃.trans hext₁⟩

theorem mirrored_fold {iter accu : String}
    {range range' init init' condition condition' step step' result result' : Expr}
    {iterTy : Ty} {w₂ w₃ w₄ w₅ w₆ w₇ : State} {accuEnv loopEnv : Env}
    (hrange : Paired x wide w range range' w₂) (hinit : Paired x wide w₂ init init' w₃)
    (hiter : iterType w₃ range.id (w₃.subst (w₃.typeAt range.id)) = (iterTy, w₄))
    (haccu : accuEnv = wide.enter.bind { name := accu, ty := w₃.typeAt init.id })
    (hloop : loopEnv = accuEnv.enter.bind { name := iter, ty := iterTy })
    (hcond : Paired x loopEnv w₄ condition condition' w₅)
    (hstep : Paired x loopEnv (w₅.expect condition.id .bool) step step' w₆)
    (hresult : Paired x accuEnv (w₆.expect step.id (w₃.typeAt init.id)) result result' w₇)
    (hset : w₇.setType id (w₇.subst (w₇.typeAt result.id)) = .ok w₁) :
    Mirrored x wide w (.fold id iter range accu init condition step result)
      (.fold id iter range' accu init' condition' step' result') w₁ := by
  intro φ env s henv hs hc
  have hquiet := (quiet_iterType ..).of_eq hiter
  -- back from the end: all states on the way are clean
  have hc₇ := hc.before (advances_setType hset)
  have hc₆' := hc₇.before hresult.1.advances
  have hc₆ := hc₆'.before (quiet_expect w₆ step.id (w₃.typeAt init.id)).advances
  have hc₅' := hc₆.before hstep.1.advances
  have hc₅ := hc₅'.before (quiet_expect w₅ condition.id .bool).advances
  have hc₄ := hc₅.before hcond.1.advances
  have hc₃ := hc₄.before hquiet.advances
  -- range and initializer
  obtain ⟨φ₂, s₂, hrange₂, h₂, hext₂⟩ := hrange.2 φ env s henv hs (hc₃.before hinit.1.advances)
  obtain ⟨φ₃, s₃, hinit₃, h₃, hext₃⟩ := hinit.2 φ₂ env s₂ (henv.extend hext₂) h₂ hc₃
  have henv₃ := henv.extend (hext₂.trans hext₃)
  have hrangeTy := h₃.known_typeAt range.id
  rw [h₃.typeAt, h₃.subst hrangeTy] at hiter
  have h₄ := iterType_mirrored h₃ (h₃.known_subst hrangeTy) range.id
    (by rw [hiter]; exact hc₄.reports)
  have hext₄ := Extends.of_le (φ := φ₃)
    (quiet_iterType s₃ range.id (s₃.subst (s₃.typeAt range.id))).nextVar
  rw [hiter] at h₄
  generalize hiter₄ : iterType s₃ range.id (s₃.subst (s₃.typeAt range.id)) = r at h₄ hext₄
  obtain ⟨iterTy', s₄⟩ := r
  obtain ⟨h₄, rfl, hiterTy⟩ := h₄
  -- the variables of the loop
  have haccuTy := (h₃.known_typeAt init.id).mono (inUse_mono hext₄.le)
  have haccuEnv :=
    (henv₃.extend hext₄).bind (d := { name := accu, ty := s₃.typeAt init.id }) haccuTy
  have hloopEnv := haccuEnv.bind (d := { name := iter, ty := iterTy' }) hiterTy
  rw [h₃.typeAt] at haccu hresult hc₆'
  subst haccu hloop
  obtain ⟨φ₅, s₅, hcond₅, h₅, hext₅⟩ := hcond.2 φ₃ _ s₄ hloopEnv h₄ hc₅
  have h₅' := h₅.expect (u := .bool) (Ty.over_of_params_eq_nil rfl) condition.id hc₅'.reports
  have hext₅' := hext₅.trans (.of_le (quiet_expect s₅ condition.id .bool).nextVar)
  obtain ⟨φ₆, s₆, hstep₆, h₆, hext₆⟩ := hstep.2 φ₅ _ _ (hloopEnv.extend hext₅') h₅' hc₆
  have hext₄₆ := hext₅'.trans hext₆
  have haccuTy₆ := haccuTy.mono (inUse_mono hext₄₆.le)
  have h₆' := h₆.expect haccuTy₆ step.id (by rw [hext₄₆.rename haccuTy]; exact hc₆'.reports)
  rw [hext₄₆.rename haccuTy] at h₆'
  have hext₆' := hext₄₆.trans (.of_le (quiet_expect s₆ step.id (s₃.typeAt init.id)).nextVar)
  obtain ⟨φ₇, s₇, hresult₇, h₇, hext₇⟩ := hresult.2 φ₆ _ _ (haccuEnv.extend hext₆') h₆' hc₇
  have hresultTy := h₇.known_typeAt result.id
  rw [h₇.typeAt, h₇.subst hresultTy] at hset
  obtain ⟨s₁, hset₁, h₁, hn₁⟩ := h₇.setType (h₇.known_subst hresultTy) hset
  have hext₇' := hext₆'.trans (hext₇.trans (.of_le hn₁.ge))
  exact ⟨φ₇, s₁,
    (Rule.fold hrange₂ hinit₃ hiter₄ rfl rfl hcond₅ hstep₆ hresult₇ hset₁).completes, h₁,
    hext₂.trans (hext₃.trans (hext₄.trans hext₇'))⟩

theorem Rule.mirrored {e e' : Expr} (h : Rule (Paired x) wide w e e' w₁) :
    Mirrored x wide w e e' w₁ := by
  cases h with
  | @const _ id v hset =>
    intro φ env s henv hs hc
    have hparams : v.ty.params = [] := by cases v <;> rfl
    rw [← Ty.rename_of_params_eq_nil (φ := φ) hparams] at hset
    obtain ⟨s₁, hset₁, h₁, hn⟩ := hs.setType (Ty.over_of_params_eq_nil hparams) hset
    exact ⟨φ, s₁, (Rule.const hset₁).completes, h₁, .of_le hn.ge⟩
  | ident hd hset =>
    intro φ env s henv hs hc
    rw [henv.lookupIdent?] at hd
    obtain ⟨d, hd', rfl⟩ := Option.map_eq_some_iff.1 hd
    obtain ⟨s₁, hset₁, h₁, hn⟩ := annotateIdent_mirrored hs (henv.known_lookupIdent hd') hset
    exact ⟨φ, s₁, (Rule.ident hd' hset₁).completes, h₁, .of_le hn.ge⟩
  | undeclaredIdent hd hset =>
    exact fun φ env s henv hs hc => absurd hc (not_clean_of_annotateUndeclared hset)
  | qualifiedIdent hd hset =>
    intro φ env s henv hs hc
    rw [henv.selectedDecl?] at hd
    obtain ⟨d, hd', rfl⟩ := Option.map_eq_some_iff.1 hd
    obtain ⟨p, -, hlookup⟩ := Option.bind_eq_some_iff.1 hd'
    obtain ⟨s₁, hset₁, h₁, hn⟩ := annotateIdent_mirrored hs (henv.known_lookupIdent hlookup) hset
    exact ⟨φ, s₁, (Rule.qualifiedIdent hd' hset₁).completes, h₁, .of_le hn.ge⟩
  | testedIdent hd hset =>
    intro φ env s henv hs hc
    have hreports := (hc.before (advances_setType hset)).reports
    simp [report] at hreports
  | select hd ho hsel hset => exact mirrored_select hd ho hsel hset
  | call hargs hd hset =>
    intro φ env s henv hs hc
    rw [henv.lookupFunction?] at hd
    obtain ⟨φ₁, s₁, hargs₁, h₁, hext₁⟩ :=
      hargs.mirrored henv hs (hc.before (advances_resolveCall hset))
    obtain ⟨φ₂, s₂, hset₂, h₂, hext₂⟩ :=
      resolveCall_mirrored (henv.extend hext₁) h₁ (henv.variableFree hd) hset hc
    exact ⟨φ₂, s₂, (Rule.call hargs₁ hd hset₂).completes, h₂, hext₁.trans hext₂⟩
  | undeclaredCall hargs hd hset =>
    exact fun φ env s henv hs hc => absurd hc (not_clean_of_annotateUndeclared hset)
  | namespacedCall hargs hn hset =>
    intro φ env s henv hs hc
    rw [henv.namespacedFunction?] at hn
    obtain ⟨p, -, hlookup⟩ := Option.bind_eq_some_iff.1 hn
    obtain ⟨φ₁, s₁, hargs₁, h₁, hext₁⟩ :=
      hargs.mirrored henv hs (hc.before (advances_resolveCall hset))
    obtain ⟨φ₂, s₂, hset₂, h₂, hext₂⟩ :=
      resolveCall_mirrored (henv.extend hext₁) h₁ (henv.variableFree hlookup) hset hc
    exact ⟨φ₂, s₂, (Rule.namespacedCall hargs₁ hn hset₂).completes, h₂, hext₁.trans hext₂⟩
  | method hargs hn ht hd hset =>
    intro φ env s henv hs hc
    rw [henv.namespacedFunction?] at hn
    rw [henv.lookupFunction?] at hd
    have hc₂ := hc.before (advances_resolveCall hset)
    obtain ⟨φ₁, s₁, hargs₁, h₁, hext₁⟩ := hargs.mirrored henv hs (hc₂.before ht.1.advances)
    obtain ⟨φ₂, s₂, ht₂, h₂, hext₂⟩ := ht.2 φ₁ env s₁ (henv.extend hext₁) h₁ hc₂
    have hext := hext₁.trans hext₂
    obtain ⟨φ₃, s₃, hset₃, h₃, hext₃⟩ :=
      resolveCall_mirrored (henv.extend hext) h₂ (henv.variableFree hd) hset hc
    exact ⟨φ₃, s₃, (Rule.method hargs₁ hn ht₂ hd hset₃).completes, h₃, hext.trans hext₃⟩
  | undeclaredMethod hargs hn ht hd hset =>
    exact fun φ env s henv hs hc => absurd hc (not_clean_of_annotateUndeclared hset)
  | list helems hf hset => exact mirrored_list helems hf hset
  | map hentries hk hv hset => exact mirrored_map hentries hk hv hset
  | message hname hset hfields => exact mirrored_message hname hset hfields
  | fold hr hi hiter haccu hloop hc hs ha hset =>
    exact mirrored_fold hr hi hiter haccu hloop hc hs ha hset

theorem Completes.mirrored {e e' : Expr} (h : Completes wide w e e' w₁) :
    Mirrored x wide w e e' w₁ :=
  h.strongInduction (R := fun wide w e e' w₁ => Mirrored x wide w e e' w₁)
    fun _ _ _ _ _ hrule => Rule.mirrored hrule

end Rules

end Checker

section Disable

theorem mem_insertName {x y : String} {ids : List String} :
    y ∈ insertName x ids ↔ y = x ∨ y ∈ ids := by
  induction ids with
  | nil => simp [insertName]
  | cons i ids ih =>
    rw [insertName]
    split
    · next h => simp [h]
    · split
      · simp
      · simp only [List.mem_cons, ih]
        exact or_left_comm

theorem Options.isDisabled_disable (o : Options) (x id : String) :
    (o.disable [x]).isDisabled id = (o.isDisabled id || id == x) := by
  rw [Bool.eq_iff_iff]
  simp only [isDisabled, disable, List.foldl_cons, List.foldl_nil, List.contains_iff_mem,
    Bool.or_eq_true, beq_iff_eq, mem_insertName]
  exact or_comm

/-- Disabling an overload does not change a check that reports nothing and refers nowhere to the
overload. -/
theorem check_disable (env : Env) (source : Source) (e : Expr) (x : String) (r : CheckResult)
    (hident : ∀ g ∈ env.scopes.groups, ∀ name d, g.idents.find? name = some d →
      ∀ k, varName k ∉ d.ty.params)
    (hoverload : ∀ name f, env.scopes.findFunction? name = some f → ∀ o ∈ f.overloads,
      (∀ k, varName k ∉ o.typeParams) ∧ ∀ t ∈ o.result :: o.params, ∀ k, varName k ∉ t.params)
    (hmessage : ∀ name t, env.provider.message? name = some t → ∀ k, varName k ∉ t.params)
    (hfield : ∀ m f t, env.provider.field? m f = some t → ∀ k, varName k ∉ t.params)
    (hcheck : check env source e = .ok r) (hdiag : r.diagnostics = [])
    (hrefs : ∀ id q, r.references.find? id = some q → x ∉ q.overloads) :
    check (env.disable [x]) source e = .ok r := by
  obtain ⟨e', w, hw, rfl⟩ := check_eq_ok_iff.1 hcheck
  have hclean : Clean x w := ⟨by simpa using hdiag, hrefs⟩
  have henv : (env.disable [x]).Mirrors x (fun p => p) 0 env := by
    refine ⟨rfl, rfl, rfl, env.options.isDisabled_disable x, fun _ => rfl, fun name => ?_,
      fun name d hd => ?_, fun name f hf o ho => ?_, fun m f t ht => ?_⟩
    · have hid : IdentDecl.rename (fun p => p) = fun d => d :=
        funext fun d => congrArg (fun t => { d with ty := t }) (Ty.inst_param d.ty)
      rw [hid, Option.map_id']
      rfl
    · exact over_inUse_zero_iff.2 (known_lookupCandidate hident hmessage hd)
    · obtain ⟨hown, hsig⟩ := hoverload name f hf o ho
      exact ⟨hown, fun t ht => over_inUse_zero_iff.2 (hsig t ht)⟩
    · exact over_inUse_zero_iff.2 (hfield m f t ht)
  obtain ⟨φ, s, hs, hmirrors, -⟩ := hw.mirrored _ _ {} henv .start hclean
  refine check_eq_ok_iff.2 ⟨e', s, hs, ?_⟩
  have htypes : w.types.mapValues (w.bindings.subst true) =
      s.types.mapValues (s.bindings.subst true) := by
    rw [hmirrors.types, Table.mapValues_mapValues]
    exact Table.mapValues_congr fun p hp => hmirrors.linked.agree.subst_true (hmirrors.known p hp)
  rw [htypes, hmirrors.references, hmirrors.reports, hclean.reports]

theorem check_disable_of_tried_overload :
    let onList : Overload :=
      { id := "f_list", params := [.list (.param "A")], result := .param "A", typeParams := ["A"] }
    let onInt : Overload := { id := "f_int", params := [.int], result := .int }
    let env : Env :=
      { container := {}, provider := ⟨fun _ => none, fun _ _ => none, fun _ => none⟩,
        scopes := ⟨{ functions := Table.insert {} "f" ⟨"f", [onList, onInt]⟩ }, []⟩ }
    let e : Expr := .list 1 [.list 2 [.call 3 "f" [.const 4 (.int 0)]], .list 5 []]
    ∃ r, check env {} e = .ok r ∧ r.type? = some (.list (.list .int)) ∧
      check (env.disable ["f_list"]) {} e = .ok r := by
  intro onList onInt env e
  obtain ⟨r, hr, ht, hd, hq⟩ : ∃ r, check env {} e = .ok r ∧ r.type? = some (.list (.list .int)) ∧
      r.diagnostics = [] ∧ r.references = Table.insert {} 3 ⟨"f", ["f_int"], none⟩ :=
    ⟨_, rfl, by decide +kernel, rfl, rfl⟩
  have hA : ∀ k, varName k ∉ ["A"] := by
    intro k hk
    exact varName_ne_of_length_lt (by decide) k (List.mem_singleton.1 hk)
  refine ⟨r, hr, ht,
    check_disable env {} e "f_list" r ?_ ?_ (by simp [env]) (by simp [env]) hr hd ?_⟩
  · intro g hg name d hd
    cases List.mem_singleton.1 hg
    cases hd
  · intro name g hg o ho
    obtain ⟨c, hc, hg⟩ := List.exists_of_findSome?_eq_some hg
    cases List.mem_singleton.1 hc
    rw [Table.find?_insert] at hg
    split at hg
    · cases hg
      rcases List.mem_cons.1 ho with rfl | ho
      · exact ⟨hA, by simpa [onList, Ty.params] using hA⟩
      · cases List.mem_singleton.1 ho
        exact ⟨by simp [onInt], by simp [onInt, Ty.params]⟩
    · cases hg
  · intro id q hid
    rw [hq, Table.find?_insert] at hid
    split at hid
    · cases hid
      decide
    · cases hid

end Disable

end ExprTyping
