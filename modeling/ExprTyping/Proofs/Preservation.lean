import ExprTyping.Proofs.TypeInvariant

namespace ExprTyping.TypeInvariant

open Checker State Run

variable {K : TypeInvariant} {env env' : Env} {s s₁ s₂ : State} {t : Ty}

structure SoundAt (K : TypeInvariant) (p : Point) : Prop where
  sound : K.Sound p.env p.state
  attempt : ∀ args o, p.action = .attempt args o → K.Admits o

theorem Sound.soundAt (h : K.Sound env s) {a : Action} (ha : a.isAttempt = false) :
    K.SoundAt ⟨env, s, a⟩ := by
  refine ⟨h, ?_⟩
  rintro args o rfl
  cases ha

structure Kept (K : TypeInvariant) (env : Env) (s s' : State) : Prop where
  sound : K.Sound env s'
  grows : Grows s s'

theorem Kept.refl (h : K.Sound env s) : K.Kept env s s := ⟨h, .refl s⟩

theorem Kept.trans (h : K.Kept env s s₁) (h' : K.Kept env' s₁ s₂) : K.Kept env s s₂ :=
  ⟨h.sound.transfer h'.grows h'.sound, h.grows.trans h'.grows⟩

section Rules

theorem goOn_kept {r : Ty × State} (h : K.Sound env r.2 ∧ K.Holds r.2 r.1) (hq : Quiet s r.2) :
    (goOn env r).Sat K.SoundAt fun r => K.Kept env s r.2 ∧ K.Holds r.2 r.1 :=
  sat_goOn (h.1.soundAt rfl) ⟨⟨h.1, hq.toGrows⟩, h.2⟩

theorem runJoin_kept {id : Int} {previous : Option Ty} {current : Ty} (hs : K.Sound env s)
    (h : K.Sound env (join env s id previous current).2 ∧
      K.Holds (join env s id previous current).2 (join env s id previous current).1) :
    (runJoin env s id previous current).Sat K.SoundAt
      fun r => K.Kept env s r.2 ∧ K.Holds r.2 r.1 :=
  sat_runJoin _ _ _ (fun _ => hs.soundAt rfl) (h.1.soundAt rfl)
    ⟨⟨h.1, (quiet_join env s id previous current).toGrows⟩, h.2⟩

theorem annotate_kept (h : K.Sound env s) (ht : K.Holds s t) (id : Int) :
    (annotate env s id t).Sat K.SoundAt fun s' => K.Kept env s s' ∧ s'.HasType id := by
  refine sat_single (h.soundAt rfl) fun s₁ hset => ?_
  obtain ⟨hg, hid, hb⟩ := grows_setType hset
  exact ⟨⟨h.setType hset (.refl s₁) hb rfl (K.mono hg ht), hg⟩, by simp [HasType, hid]⟩

theorem refer_kept (h : K.Sound env s) (id : Int) (r : Reference) :
    (refer env s id r).Sat K.SoundAt fun s' => K.Kept env s s' ∧ s'.types = s.types := by
  refine sat_single (h.soundAt rfl) fun s₁ hset => ?_
  obtain ⟨hg, ht, hb⟩ := grows_setReference hset
  exact ⟨⟨h.grow hg hb fun _ _ hu => .inl (ht ▸ hu), hg⟩, ht⟩

theorem annotate_refer_kept (h : K.Sound env s) (ht : K.Holds s t) (id : Int) (r : Reference) :
    (annotate env s id t >>= fun s => refer env s id r).Sat K.SoundAt
      fun s' => K.Kept env s s' ∧ s'.HasType id := by
  refine .bind (annotate_kept h ht id) ?_
  rintro s₁ ⟨h₁, hid⟩
  refine (refer_kept h₁.sound id r).mono ?_
  rintro s₂ ⟨h₂, htypes⟩
  refine ⟨h₁.trans h₂, ?_⟩
  rwa [HasType, htypes]

theorem runIdent_kept (h : K.Sound env s) {name : String} {d : IdentDecl}
    (hd : env.lookupIdent? name = some d) (id : Int) :
    (runIdent env s id d).Sat K.SoundAt fun s' => K.Kept env s s' ∧ s'.HasType id :=
  annotate_refer_kept h (h.lookupIdent hd) id _

theorem runUndeclared_kept (h : K.Sound env s) (id : Int) (name : String) :
    (runUndeclared env s id name).Sat K.SoundAt fun s' => K.Kept env s s' ∧ s'.HasType id := by
  refine .bind (sat_single (h.soundAt rfl) fun s₁ hset => hset) fun s₁ hset => ?_
  -- the error type is sound only after the report
  obtain ⟨hg, hid, hb⟩ := grows_setType hset
  have hq := quiet_report s₁ id (.undeclaredReference env.container.name name)
  have herr : K.Holds (s₁.reportUndeclared env id name) .error :=
    K.error (by simp [reportUndeclared, report])
  refine .pure ⟨⟨h.setType hset hq.toGrows hb rfl herr, hg.trans hq.toGrows⟩, ?_⟩
  simp [HasType, reportUndeclared, report, hid]

theorem runCall_kept (h : K.Sound env s) {f : FunctionDecl}
    (hf : ∀ o ∈ f.overloads, K.Admits o ∧ ∀ t ∈ o.result :: o.params, K.Holds s t) {args : List Int}
    (hargs : ∀ i ∈ args, s.HasType i) (id : Int) (receiver : Bool) :
    (runCall env s id f receiver args).Sat K.SoundAt fun s' => K.Kept env s s' ∧ s'.HasType id := by
  have htypes : ∀ t ∈ args.map s.typeAt, K.Holds s t := by
    simp only [List.forall_mem_map]
    exact fun i hi => h.typeAt (hargs i hi)
  have hstep : ∀ t, K.SoundTrial env s t → ∀ o ∈ f.overloads.filter (fun o =>
      !env.options.isDisabled o.id && o.receiver == receiver),
      K.SoundTrial env s (t.overload (args.map s.typeAt) o) :=
    fun t ht o ho => ht.overload htypes (hf o (List.mem_of_mem_filter ho)).2
  have hstart : K.SoundTrial env s ⟨s.bindings, s.nextVar, none⟩ := ⟨.refl s, h, by simp⟩
  refine .bind (Q := fun _ => True) ⟨fun p hp => ?_, fun _ _ => trivial⟩ fun _ _ => ?_
  · obtain ⟨t, ht, o, ho, rfl⟩ := attempts_invariant hstart hstep p hp
    refine ⟨ht.sound, fun args o' heq => ?_⟩
    cases heq
    exact (hf o (List.mem_of_mem_filter ho)).1
  · -- what holds of the trials in turn holds of the last one
    have hend := List.foldlRecOn _ _ hstart hstep
    have hkept : K.Kept env s (s.trying _) := ⟨hend.sound, hend.grows⟩
    split
    · next r hr =>
      refine (annotate_refer_kept hkept.sound (hend.found r hr) id _).mono ?_
      rintro s₂ ⟨h₂, hid⟩
      exact ⟨hkept.trans h₂, hid⟩
    · have hrep := hkept.sound.report id
      refine (annotate_kept (hrep _).1 (hrep _).2 id).mono ?_
      rintro s₂ ⟨h₂, hid⟩
      exact ⟨hkept.trans (Kept.trans ⟨(hrep _).1, (quiet_report _ _ _).toGrows⟩ h₂), hid⟩

theorem runLiteral_kept (h : K.Sound env s) (id : Int) (name : String) :
    (runLiteral env s id name).Sat K.SoundAt fun r => K.Kept env s r.2.2 ∧
      K.Holds r.2.2 (literalType r.2.1) ∧ ((∃ m, r.2.1 = .message m) ∨ K.Holds r.2.2 .error) := by
  unfold runLiteral
  split
  · obtain ⟨hrep, herr⟩ := h.report id (.undeclaredReference env.container.name name)
    exact .pure ⟨⟨hrep, (quiet_report s id _).toGrows⟩, herr, .inr herr⟩
  · next d hd =>
    refine .bind (refer_kept h id _) ?_
    rintro s₁ ⟨h₁, _⟩
    have hm := h₁.sound.messageType (h₁.sound.lookupIdent hd) id
    refine .bind (sat_goOn (Q := fun r => r = Checker.messageType s₁ id d.ty)
      (hm.1.soundAt rfl) rfl) fun r hr => ?_
    subst hr
    exact .pure ⟨h₁.trans ⟨hm.1, (quiet_messageType s₁ id d.ty).toGrows⟩, hm.2⟩

end Rules

section Lists

def Preserves (K : TypeInvariant) (env : Env) (e : Expr) : Prop :=
  ∀ s, K.Sound env s →
    (runExpr env s e).Sat K.SoundAt fun r => K.Kept env s r.2 ∧ r.2.HasType e.id

theorem runAll_kept {es : List Expr} (ih : ∀ e ∈ es, K.Preserves env e) (h : K.Sound env s) :
    (runAll env s es).Sat K.SoundAt
      fun r => K.Kept env s r.2 ∧ ∀ i ∈ es.map Expr.id, r.2.HasType i := by
  induction es generalizing s with
  | nil =>
    rw [runAll]
    exact .pure ⟨.refl h, by simp⟩
  | cons e es ihes =>
    rw [List.forall_mem_cons] at ih
    rw [runAll]
    refine .bind (ih.1 s h) ?_
    rintro ⟨e', s₁⟩ ⟨h₁, hid⟩
    refine .bind (ihes ih.2 h₁.sound) ?_
    rintro ⟨es', s₂⟩ ⟨h₂, hids⟩
    exact .pure ⟨h₁.trans h₂, List.forall_mem_cons.2 ⟨h₂.grows.hasType hid, hids⟩⟩

theorem runElems_kept {es : List Expr} (ih : ∀ e ∈ es, K.Preserves env e) (h : K.Sound env s)
    {t : Option Ty} (ht : ∀ u, t = some u → K.Holds s u) :
    (runElems env s t es).Sat K.SoundAt
      fun r => K.Kept env s r.2.2 ∧ ∀ u, r.2.1 = some u → K.Holds r.2.2 u := by
  induction es generalizing s t with
  | nil =>
    rw [runElems]
    exact .pure ⟨.refl h, ht⟩
  | cons e es ihes =>
    rw [List.forall_mem_cons] at ih
    rw [runElems]
    refine .bind (ih.1 s h) ?_
    rintro ⟨e', s₁⟩ ⟨h₁, hid⟩
    have hjoin := h₁.sound.join (fun u hu => K.mono h₁.grows (ht u hu)) (h₁.sound.typeAt hid) e.id
    refine .bind (runJoin_kept h₁.sound hjoin) ?_
    rintro ⟨u, s₂⟩ ⟨h₂, hu⟩
    refine .bind (ihes ih.2 h₂.sound (by simpa using hu)) ?_
    rintro ⟨es', t', s₃⟩ ⟨h₃, ht'⟩
    exact .pure ⟨h₁.trans (h₂.trans h₃), ht'⟩

theorem runEntries_kept {es : List Entry}
    (ih : ∀ i x y, .mk i x y ∈ es → K.Preserves env x ∧ K.Preserves env y) (h : K.Sound env s)
    {k v : Option Ty} (hk : ∀ u, k = some u → K.Holds s u) (hv : ∀ u, v = some u → K.Holds s u) :
    (runEntries env s k v es).Sat K.SoundAt fun r => K.Kept env s r.2.2.2 ∧
      (∀ u, r.2.1 = some u → K.Holds r.2.2.2 u) ∧ ∀ u, r.2.2.1 = some u → K.Holds r.2.2.2 u := by
  induction es generalizing s k v with
  | nil =>
    rw [runEntries]
    exact .pure ⟨.refl h, hk, hv⟩
  | cons e es ihes =>
    obtain ⟨i, x, y⟩ := e
    obtain ⟨ihx, ihy⟩ := ih i x y List.mem_cons_self
    rw [runEntries]
    refine .bind (ihx s h) ?_
    rintro ⟨x', s₁⟩ ⟨h₁, hid⟩
    have hjoin := h₁.sound.join (fun u hu => K.mono h₁.grows (hk u hu)) (h₁.sound.typeAt hid) x.id
    refine .bind (runJoin_kept h₁.sound hjoin) ?_
    rintro ⟨k', s₂⟩ ⟨h₂, hk'⟩
    refine .bind (ihy s₂ h₂.sound) ?_
    rintro ⟨y', s₃⟩ ⟨h₃, hid'⟩
    have h₀ := h₁.trans (h₂.trans h₃)
    have hjoin := h₃.sound.join (fun u hu => K.mono h₀.grows (hv u hu)) (h₃.sound.typeAt hid') y.id
    refine .bind (runJoin_kept h₃.sound hjoin) ?_
    rintro ⟨v', s₄⟩ ⟨h₄, hv'⟩
    have hk'' := K.mono (h₃.trans h₄).grows hk'
    refine .bind (ihes (fun i x y hm => ih i x y (List.mem_cons_of_mem _ hm)) h₄.sound
      (by simpa using hk'') (by simpa using hv')) ?_
    rintro ⟨es', k, v, s₅⟩ ⟨h₅, hkv⟩
    exact .pure ⟨h₀.trans (h₄.trans h₅), hkv⟩

theorem runFields_kept {fs : List FieldInit} (ih : ∀ i f x, .mk i f x ∈ fs → K.Preserves env x)
    (h : K.Sound env s) (ht : (∃ m, t = .message m) ∨ K.Holds s .error) :
    (runFields env s t fs).Sat K.SoundAt fun r => K.Kept env s r.2 := by
  induction fs generalizing s with
  | nil =>
    rw [runFields]
    exact .pure (.refl h)
  | cons f fs ihfs =>
    obtain ⟨i, f, x⟩ := f
    rw [runFields]
    refine .bind (ih i f x List.mem_cons_self s h) ?_
    rintro ⟨x', s₁⟩ ⟨h₁, hid⟩
    have hq := quiet_initField env s₁ i t f x.id
    have h₂ := h₁.sound.initField (ht.imp_right (K.mono h₁.grows)) hid i f
    have h₀ := h₁.trans ⟨h₂, hq.toGrows⟩
    refine sat_pass (h₂.soundAt rfl) ?_
    refine .bind (ihfs (fun i f x hm => ih i f x (List.mem_cons_of_mem _ hm)) h₂
      (ht.imp_right (K.mono h₀.grows))) ?_
    rintro ⟨fs', s₃⟩ h₃
    exact .pure (h₀.trans h₃)

end Lists

section Nodes

theorem preserves_const (id : Int) (v : Value) : K.Preserves env (.const id v) := by
  intro s h
  rw [runExpr]
  refine sat_pass (h.soundAt rfl) ?_
  exact .bind (annotate_kept h (K.value s v) id) fun _ h => .pure h

theorem preserves_ident (id : Int) (name : String) : K.Preserves env (.ident id name) := by
  intro s h
  rw [runExpr]
  refine sat_pass (h.soundAt rfl) ?_
  split
  · next d hd => exact .bind (runIdent_kept h hd id) fun _ h => .pure h
  · exact .bind (runUndeclared_kept h id name) fun _ h => .pure h

theorem preserves_select {operand : Expr} (ih : K.Preserves env operand) (id : Int) (field : String)
    (testOnly : Bool) : K.Preserves env (.select id operand field testOnly) := by
  intro s h
  rw [runExpr]
  refine sat_pass (h.soundAt rfl) ?_
  split
  · next d hd =>
    obtain ⟨p, -, hd⟩ := Option.bind_eq_some_iff.1 hd
    split
    · have hrep := h.report id .notAFieldSelection
      refine .bind (annotate_kept hrep.1 (K.bool _) id) ?_
      rintro s₁ ⟨h₁, hid⟩
      exact .pure ⟨Kept.trans ⟨hrep.1, (quiet_report s id _).toGrows⟩ h₁, hid⟩
    · exact .bind (runIdent_kept h hd id) fun _ h => .pure h
  · refine .bind (ih s h) ?_
    rintro ⟨operand', s₁⟩ ⟨h₁, hid⟩
    have hsel := h₁.sound.selection (h₁.sound.subst (h₁.sound.typeAt hid)) id field
    refine .bind (goOn_kept hsel (quiet_selection env s₁ id _ field)) ?_
    rintro ⟨t, s₂⟩ ⟨h₂, ht⟩
    have ht' : K.Holds s₂ (if testOnly then .bool else t) := by
      split
      · exact K.bool s₂
      · exact ht
    refine .bind (annotate_kept h₂.sound (h₂.sound.subst ht') id) ?_
    rintro s₃ ⟨h₃, hid⟩
    exact .pure ⟨h₁.trans (h₂.trans h₃), hid⟩

theorem preserves_call {args : List Expr} (ih : ∀ e ∈ args, K.Preserves env e) (id : Int)
    (f : String) : K.Preserves env (.call id f args) := by
  intro s h
  rw [runExpr]
  refine sat_pass (h.soundAt rfl) ?_
  refine .bind (runAll_kept ih h) ?_
  rintro ⟨args', s₁⟩ ⟨h₁, hids⟩
  simp only
  split
  · next d hd =>
    refine .bind (runCall_kept h₁.sound (h₁.sound.lookupFunction hd) hids id false) ?_
    rintro s₂ ⟨h₂, hid⟩
    exact .pure ⟨h₁.trans h₂, hid⟩
  · refine .bind (runUndeclared_kept h₁.sound id f) ?_
    rintro s₂ ⟨h₂, hid⟩
    exact .pure ⟨h₁.trans h₂, hid⟩

theorem preserves_method {target : Expr} {args : List Expr} (iht : K.Preserves env target)
    (ih : ∀ e ∈ args, K.Preserves env e) (id : Int) (f : String) :
    K.Preserves env (.method id target f args) := by
  intro s h
  rw [runExpr]
  refine sat_pass (h.soundAt rfl) ?_
  refine .bind (runAll_kept ih h) ?_
  rintro ⟨args', s₁⟩ ⟨h₁, hids⟩
  simp only
  split
  · next d hd =>
    obtain ⟨p, -, hd⟩ := Option.bind_eq_some_iff.1 hd
    refine .bind (runCall_kept h₁.sound (h₁.sound.lookupFunction hd) hids id false) ?_
    rintro s₂ ⟨h₂, hid⟩
    exact .pure ⟨h₁.trans h₂, hid⟩
  · refine .bind (iht s₁ h₁.sound) ?_
    rintro ⟨target', s₂⟩ ⟨h₂, htid⟩
    have h₀ := h₁.trans h₂
    simp only
    split
    · next d hd =>
      have hargs := List.forall_mem_cons.2 ⟨htid, fun i hi => h₂.grows.hasType (hids i hi)⟩
      refine .bind (runCall_kept h₂.sound (h₂.sound.lookupFunction hd) hargs id true) ?_
      rintro s₃ ⟨h₃, hid⟩
      exact .pure ⟨h₀.trans h₃, hid⟩
    · refine .bind (runUndeclared_kept h₂.sound id f) ?_
      rintro s₃ ⟨h₃, hid⟩
      exact .pure ⟨h₀.trans h₃, hid⟩

theorem preserves_list {elems : List Expr} (ih : ∀ e ∈ elems, K.Preserves env e) (id : Int) :
    K.Preserves env (.list id elems) := by
  intro s h
  rw [runExpr]
  refine sat_pass (h.soundAt rfl) ?_
  refine .bind (runElems_kept ih h (by simp)) ?_
  rintro ⟨elems', t, s₁⟩ ⟨h₁, ht⟩
  refine .bind (goOn_kept (h₁.sound.orFresh ht) (quiet_orFresh s₁ t)) ?_
  rintro ⟨u, s₂⟩ ⟨h₂, hu⟩
  refine .bind (annotate_kept h₂.sound (K.list hu) id) ?_
  rintro s₃ ⟨h₃, hid⟩
  exact .pure ⟨h₁.trans (h₂.trans h₃), hid⟩

theorem preserves_message {fields : List FieldInit}
    (ih : ∀ i f v, .mk i f v ∈ fields → K.Preserves env v) (id : Int) (name : String) :
    K.Preserves env (.message id name fields) := by
  intro s h
  rw [runExpr]
  refine sat_pass (h.soundAt rfl) ?_
  refine .bind (runLiteral_kept h id name) ?_
  rintro ⟨name', t, s₁⟩ ⟨h₁, hlit, hmsg⟩
  refine .bind (annotate_kept h₁.sound hlit id) ?_
  rintro s₂ ⟨h₂, hid⟩
  refine .bind (runFields_kept ih h₂.sound (hmsg.imp_right (K.mono h₂.grows))) ?_
  rintro ⟨fields', s₃⟩ h₃
  exact .pure ⟨h₁.trans (h₂.trans h₃), h₃.grows.hasType hid⟩

theorem preserves_map {entries : List Entry}
    (ih : ∀ i k v, .mk i k v ∈ entries → K.Preserves env k ∧ K.Preserves env v) (id : Int) :
    K.Preserves env (.map id entries) := by
  intro s h
  rw [runExpr]
  refine sat_pass (h.soundAt rfl) ?_
  refine .bind (runEntries_kept ih h (by simp) (by simp)) ?_
  rintro ⟨entries', k, v, s₁⟩ ⟨h₁, hk, hv⟩
  refine .bind (goOn_kept (h₁.sound.orFresh hk) (quiet_orFresh s₁ k)) ?_
  rintro ⟨k', s₂⟩ ⟨h₂, hk'⟩
  refine .bind (goOn_kept (h₂.sound.orFresh fun u hu => K.mono h₂.grows (hv u hu))
    (quiet_orFresh s₂ v)) ?_
  rintro ⟨v', s₃⟩ ⟨h₃, hv'⟩
  refine .bind (annotate_kept h₃.sound (K.map (K.mono h₃.grows hk') hv') id) ?_
  rintro s₄ ⟨h₄, hid⟩
  exact .pure ⟨h₁.trans (h₂.trans (h₃.trans h₄)), hid⟩

theorem preserves_fold {range init condition step result : Expr} (ihr : K.Preserves env range)
    (ihi : K.Preserves env init) (ihc : ∀ env, K.Preserves env condition)
    (ihs : ∀ env, K.Preserves env step) (iha : ∀ env, K.Preserves env result) (id : Int)
    (iter accu : String) :
    K.Preserves env (.fold id iter range accu init condition step result) := by
  intro s h
  rw [runExpr]
  refine sat_pass (h.soundAt rfl) ?_
  refine .bind (ihr s h) ?_
  rintro ⟨range', s₁⟩ ⟨h₁, hrange⟩
  refine .bind (ihi s₁ h₁.sound) ?_
  rintro ⟨init', s₂⟩ ⟨h₂, hinit⟩
  have haccu := h₂.sound.typeAt hinit
  have hiter := h₂.sound.iterType
    (h₂.sound.subst (h₂.sound.typeAt (h₂.grows.hasType hrange))) range.id
  refine .bind (goOn_kept hiter (quiet_iterType s₂ range.id _)) ?_
  rintro ⟨iterTy, s₃⟩ ⟨h₃, hiterTy⟩
  -- condition and step see both variables, the result only the accumulator
  have haccuEnv := h₃.sound.bind (d := { name := accu, ty := s₂.typeAt init.id })
    (K.mono h₃.grows haccu)
  have hloopEnv := haccuEnv.bind (d := { name := iter, ty := iterTy }) hiterTy
  refine .bind (ihc _ s₃ hloopEnv) ?_
  rintro ⟨condition', s₄⟩ ⟨h₄, hcond⟩
  have h₄' : K.Kept _ s₄ (s₄.expect condition.id .bool) :=
    ⟨h₄.sound.expect hcond (K.bool s₄), (quiet_expect s₄ _ _).toGrows⟩
  refine .bind (ihs _ _ h₄'.sound) ?_
  rintro ⟨step', s₅⟩ ⟨h₅, hstep⟩
  have hloop := h₄.trans (h₄'.trans h₅)
  have haccu₅ := K.mono (h₃.trans hloop).grows haccu
  have h₅' : K.Kept _ s₅ (s₅.expect step.id (s₂.typeAt init.id)) :=
    ⟨h₅.sound.expect hstep haccu₅, (quiet_expect s₅ _ _).toGrows⟩
  have hinner := (Kept.refl haccuEnv).trans (hloop.trans h₅')
  refine .bind (iha _ _ hinner.sound) ?_
  rintro ⟨result', s₆⟩ ⟨h₆, hresult⟩
  have houter := h₁.trans (h₂.trans (h₃.trans (hinner.trans h₆)))
  have ht := houter.sound.subst (houter.sound.typeAt hresult)
  refine .bind (annotate_kept houter.sound ht id) ?_
  rintro s₇ ⟨h₇, hid⟩
  exact .pure ⟨houter.trans h₇, hid⟩

end Nodes

theorem preserves (K : TypeInvariant) (env : Env) (e : Expr) : K.Preserves env e := by
  induction e generalizing env with
  | const id v => exact preserves_const id v
  | ident id name => exact preserves_ident id name
  | select id operand field testOnly ih => exact preserves_select (ih env) id field testOnly
  | call id f args ih => exact preserves_call (fun e he => ih e he env) id f
  | method id target f args iht ih =>
    exact preserves_method (iht env) (fun e he => ih e he env) id f
  | list id elems ih => exact preserves_list (fun e he => ih e he env) id
  | message id name fields ih => exact preserves_message (fun i f v hv => ih i f v hv env) id name
  | map id entries ih =>
    exact preserves_map (fun i k v hv => ⟨(ih i k v hv).1 env, (ih i k v hv).2 env⟩) id
  | fold id iter range accu init condition step result ihr ihi ihc ihs iha =>
    exact preserves_fold (ihr env) (ihi env) ihc ihs iha id iter accu

end ExprTyping.TypeInvariant
