import ExprTyping.Proofs.Run

/-!
# The rules of completed checks

`Rule R` lists all ways in which a check completes at a node, with one constructor for each of them.
It is an open definition: what it asks of the checks of the children is `R`. A check completes as
the rules say (`Rule.completes`), and to show something of all completed checks it is enough to show
that the rules keep it (`Completes.induction`).

Children that come in lists are related by `InTurn`, `Joined`, `JoinedEntries` and `Initialized`,
which also say what happens to the state between two of them.
-/

namespace ExprTyping.Checker

section Lists

variable (R : State → Expr → Expr → State → Prop)

inductive InTurn : State → List Expr → List Expr → State → Prop
  | nil {s : State} : InTurn s [] [] s
  | cons {s s₁ s₂ : State} {e e' : Expr} {es es' : List Expr} :
      R s e e' s₁ → InTurn s₁ es es' s₂ → InTurn s (e :: es) (e' :: es') s₂

inductive Joined (env : Env) :
    State → Option Ty → List Expr → List Expr → Option Ty → State → Prop
  | nil {s : State} {t : Option Ty} : Joined env s t [] [] t s
  | cons {s s₁ s₂ s₃ : State} {e e' : Expr} {es es' : List Expr} {t t' : Option Ty} {u : Ty} :
      R s e e' s₁ → join env s₁ e.id t (s₁.typeAt e.id) = (u, s₂) →
      Joined env s₂ (some u) es es' t' s₃ → Joined env s t (e :: es) (e' :: es') t' s₃

inductive JoinedEntries (env : Env) : State → Option Ty → Option Ty → List Entry →
    List Entry → Option Ty → Option Ty → State → Prop
  | nil {s : State} {k v : Option Ty} : JoinedEntries env s k v [] [] k v s
  | cons {s s₁ s₂ s₃ s₄ s₅ : State} {i : Int} {x x' y y' : Expr} {es es' : List Entry}
      {k v k' v' : Option Ty} {t u : Ty} :
      R s x x' s₁ → join env s₁ x.id k (s₁.typeAt x.id) = (t, s₂) →
      R s₂ y y' s₃ → join env s₃ y.id v (s₃.typeAt y.id) = (u, s₄) →
      JoinedEntries env s₄ (some t) (some u) es es' k' v' s₅ →
      JoinedEntries env s k v (.mk i x y :: es) (.mk i x' y' :: es') k' v' s₅

inductive Initialized (env : Env) (message : Ty) :
    State → List FieldInit → List FieldInit → State → Prop
  | nil {s : State} : Initialized env message s [] [] s
  | cons {s s₁ s₂ : State} {i : Int} {f : String} {x x' : Expr} {fs fs' : List FieldInit} :
      R s x x' s₁ → Initialized env message (initField env s₁ message i f x.id) fs fs' s₂ →
      Initialized env message s (.mk i f x :: fs) (.mk i f x' :: fs') s₂

end Lists

section Mono

variable {R S : State → Expr → Expr → State → Prop} {env : Env} {s s' : State}
  (hRS : ∀ s e e' s', R s e e' s' → S s e e' s')

include hRS

theorem InTurn.mono {es es' : List Expr} (h : InTurn R s es es' s') : InTurn S s es es' s' := by
  induction h with
  | nil => exact .nil
  | cons he _ ih => exact .cons (hRS _ _ _ _ he) ih

theorem Joined.mono {es es' : List Expr} {t t' : Option Ty} (h : Joined R env s t es es' t' s') :
    Joined S env s t es es' t' s' := by
  induction h with
  | nil => exact .nil
  | cons he hj _ ih => exact .cons (hRS _ _ _ _ he) hj ih

theorem JoinedEntries.mono {es es' : List Entry} {k v k' v' : Option Ty}
    (h : JoinedEntries R env s k v es es' k' v' s') :
    JoinedEntries S env s k v es es' k' v' s' := by
  induction h with
  | nil => exact .nil
  | cons hx hk hy hv _ ih => exact .cons (hRS _ _ _ _ hx) hk (hRS _ _ _ _ hy) hv ih

theorem Initialized.mono {fs fs' : List FieldInit} {message : Ty}
    (h : Initialized R env message s fs fs' s') : Initialized S env message s fs fs' s' := by
  induction h with
  | nil => exact .nil
  | cons hx _ ih => exact .cons (hRS _ _ _ _ hx) ih

end Mono

/-- The rules by which a check completes, with `R` for the checks of the children. -/
inductive Rule (R : Env → State → Expr → Expr → State → Prop) (env : Env) (s : State) :
    Expr → Expr → State → Prop
  | const {s' : State} {id : Int} {v : Value} : s.setType id v.ty = .ok s' →
      Rule R env s (.const id v) (.const id v) s'
  | ident {s' : State} {id : Int} {name : String} {d : IdentDecl} :
      env.lookupIdent? name = some d → annotateIdent s id d = .ok s' →
      Rule R env s (.ident id name) (.ident id d.name) s'
  | undeclaredIdent {s' : State} {id : Int} {name : String} : env.lookupIdent? name = none →
      annotateUndeclared env s id name = .ok s' → Rule R env s (.ident id name) (.ident id name) s'
  | qualifiedIdent {s' : State} {id : Int} {operand : Expr} {field : String} {d : IdentDecl} :
      selectedDecl? env operand field = some d → annotateIdent s id d = .ok s' →
      Rule R env s (.select id operand field false) (.ident id d.name) s'
  | testedIdent {s' : State} {id : Int} {operand : Expr} {field : String} {d : IdentDecl} :
      selectedDecl? env operand field = some d →
      (s.report id .notAFieldSelection).setType id .bool = .ok s' →
      Rule R env s (.select id operand field true) (.select id operand field true) s'
  | select {s₁ s₂ s' : State} {id : Int} {operand operand' : Expr} {field : String}
      {testOnly : Bool} {t : Ty} : selectedDecl? env operand field = none →
      R env s operand operand' s₁ →
      selection env s₁ id (s₁.subst (s₁.typeAt operand.id)) field = (t, s₂) →
      s₂.setType id (s₂.subst (if testOnly then .bool else t)) = .ok s' →
      Rule R env s (.select id operand field testOnly) (.select id operand' field testOnly) s'
  | call {s₁ s' : State} {id : Int} {f : String} {args args' : List Expr} {d : FunctionDecl} :
      InTurn (R env) s args args' s₁ → env.lookupFunction? f = some d →
      resolveCall env s₁ id d false (args.map Expr.id) = .ok s' →
      Rule R env s (.call id f args) (.call id d.name args') s'
  | undeclaredCall {s₁ s' : State} {id : Int} {f : String} {args args' : List Expr} :
      InTurn (R env) s args args' s₁ → env.lookupFunction? f = none →
      annotateUndeclared env s₁ id f = .ok s' → Rule R env s (.call id f args) (.call id f args') s'
  | namespacedCall {s₁ s' : State} {id : Int} {target : Expr} {f : String}
      {args args' : List Expr} {d : FunctionDecl} : InTurn (R env) s args args' s₁ →
      namespacedFunction? env target f = some d →
      resolveCall env s₁ id d false (args.map Expr.id) = .ok s' →
      Rule R env s (.method id target f args) (.call id d.name args') s'
  | method {s₁ s₂ s' : State} {id : Int} {target target' : Expr} {f : String}
      {args args' : List Expr} {d : FunctionDecl} : InTurn (R env) s args args' s₁ →
      namespacedFunction? env target f = none → R env s₁ target target' s₂ →
      env.lookupFunction? f = some d →
      resolveCall env s₂ id d true (target.id :: args.map Expr.id) = .ok s' →
      Rule R env s (.method id target f args) (.method id target' f args') s'
  | undeclaredMethod {s₁ s₂ s' : State} {id : Int} {target target' : Expr} {f : String}
      {args args' : List Expr} : InTurn (R env) s args args' s₁ →
      namespacedFunction? env target f = none → R env s₁ target target' s₂ →
      env.lookupFunction? f = none → annotateUndeclared env s₂ id f = .ok s' →
      Rule R env s (.method id target f args) (.method id target' f args') s'
  | list {s₁ s₂ s' : State} {id : Int} {elems elems' : List Expr} {t : Option Ty} {u : Ty} :
      Joined (R env) env s none elems elems' t s₁ → s₁.orFresh t = (u, s₂) →
      s₂.setType id (.list u) = .ok s' → Rule R env s (.list id elems) (.list id elems') s'
  | map {s₁ s₂ s₃ s' : State} {id : Int} {entries entries' : List Entry} {k v : Option Ty}
      {t u : Ty} : JoinedEntries (R env) env s none none entries entries' k v s₁ →
      s₁.orFresh k = (t, s₂) → s₂.orFresh v = (u, s₃) → s₃.setType id (.map t u) = .ok s' →
      Rule R env s (.map id entries) (.map id entries') s'
  | message {s₁ s₂ s' : State} {id : Int} {name name' : String} {fields fields' : List FieldInit}
      {t : Ty} : messageLiteral env s id name = .ok (name', t, s₁) →
      s₁.setType id (literalType t) = .ok s₂ → Initialized (R env) env t s₂ fields fields' s' →
      Rule R env s (.message id name fields) (.message id name' fields') s'
  | fold {s₁ s₂ s₃ s₄ s₅ s₆ s' : State} {id : Int} {iter accu : String}
      {range range' init init' condition condition' step step' result result' : Expr}
      {accuEnv loopEnv : Env} {iterTy : Ty} :
      R env s range range' s₁ → R env s₁ init init' s₂ →
      iterType s₂ range.id (s₂.subst (s₂.typeAt range.id)) = (iterTy, s₃) →
      accuEnv = env.enter.bind { name := accu, ty := s₂.typeAt init.id } →
      loopEnv = accuEnv.enter.bind { name := iter, ty := iterTy } →
      R loopEnv s₃ condition condition' s₄ →
      R loopEnv (s₄.expect condition.id .bool) step step' s₅ →
      R accuEnv (s₅.expect step.id (s₂.typeAt init.id)) result result' s₆ →
      s₆.setType id (s₆.subst (s₆.typeAt result.id)) = .ok s' →
      Rule R env s (.fold id iter range accu init condition step result)
        (.fold id iter range' accu init' condition' step' result') s'

theorem Rule.mono {R S : Env → State → Expr → Expr → State → Prop} {env : Env} {s s' : State}
    {e e' : Expr} (hRS : ∀ env s e e' s', R env s e e' s' → S env s e e' s')
    (h : Rule R env s e e' s') : Rule S env s e e' s' := by
  cases h with
  | const hs => exact .const hs
  | ident hd hs => exact .ident hd hs
  | undeclaredIdent hd hs => exact .undeclaredIdent hd hs
  | qualifiedIdent hd hs => exact .qualifiedIdent hd hs
  | testedIdent hd hs => exact .testedIdent hd hs
  | select hd ho hsel hs => exact .select hd (hRS _ _ _ _ _ ho) hsel hs
  | call hargs hd hs => exact .call (hargs.mono (hRS env)) hd hs
  | undeclaredCall hargs hd hs => exact .undeclaredCall (hargs.mono (hRS env)) hd hs
  | namespacedCall hargs hn hs => exact .namespacedCall (hargs.mono (hRS env)) hn hs
  | method hargs hn ht hd hs => exact .method (hargs.mono (hRS env)) hn (hRS _ _ _ _ _ ht) hd hs
  | undeclaredMethod hargs hn ht hd hs =>
    exact .undeclaredMethod (hargs.mono (hRS env)) hn (hRS _ _ _ _ _ ht) hd hs
  | list helems hf hs => exact .list (helems.mono (hRS env)) hf hs
  | map hentries hk hv hs => exact .map (hentries.mono (hRS env)) hk hv hs
  | message hname hs hfields => exact .message hname hs (hfields.mono (hRS env))
  | fold hr hi hiter haccu hloop hc hs ha hset =>
    exact .fold (hRS _ _ _ _ _ hr) (hRS _ _ _ _ _ hi) hiter haccu hloop (hRS _ _ _ _ _ hc)
      (hRS _ _ _ _ _ hs) (hRS _ _ _ _ _ ha) hset

/-- The check of `e` from `s` completes with `e'` and `s'`. -/
def Completes (env : Env) (s : State) (e e' : Expr) (s' : State) : Prop :=
  checkExpr env s e = .ok (e', s')

section Inversion

variable {α β : Type} {R : Env → State → Expr → Expr → State → Prop} {env : Env} {s s' : State}
  {e' : Expr} {id : Int}

theorem bind_eq_ok {x : Checked α} {f : α → Checked β} {b : β} :
    x >>= f = .ok b ↔ ∃ a, x = .ok a ∧ f a = .ok b := by
  cases x <;> simp [bind, Except.bind]

theorem pure_eq_ok {a b : α} : (pure a : Checked α) = .ok b ↔ a = b := by
  simp [pure, Except.pure]

def Yields (R : Env → State → Expr → Expr → State → Prop) (e : Expr) : Prop :=
  ∀ env s e' s', Completes env s e e' s' → R env s e e' s'

theorem inTurn_of_checkAll {es es' : List Expr} (hR : ∀ e ∈ es, Yields R e)
    (h : checkAll env s es = .ok (es', s')) : InTurn (R env) s es es' s' := by
  induction es generalizing s es' with
  | nil =>
    cases h
    exact .nil
  | cons e es ih =>
    rw [List.forall_mem_cons] at hR
    simp only [checkAll, bind_eq_ok, pure_eq_ok] at h
    obtain ⟨⟨e', s₁⟩, he, ⟨es'', s₂⟩, hes, heq⟩ := h
    cases heq
    exact .cons (hR.1 env s e' s₁ he) (ih hR.2 hes)

theorem joined_of_checkElems {es es' : List Expr} {t t' : Option Ty} (hR : ∀ e ∈ es, Yields R e)
    (h : checkElems env s t es = .ok (es', t', s')) : Joined (R env) env s t es es' t' s' := by
  induction es generalizing s t es' with
  | nil =>
    cases h
    exact .nil
  | cons e es ih =>
    rw [List.forall_mem_cons] at hR
    simp only [checkElems, bind_eq_ok, pure_eq_ok] at h
    obtain ⟨⟨e', s₁⟩, he, ⟨es'', t'', s₂⟩, hes, heq⟩ := h
    cases heq
    exact .cons (hR.1 env s e' s₁ he) rfl (ih hR.2 hes)

theorem joined_of_checkEntries {es es' : List Entry} {k v k' v' : Option Ty}
    (hR : ∀ i x y, .mk i x y ∈ es → Yields R x ∧ Yields R y)
    (h : checkEntries env s k v es = .ok (es', k', v', s')) :
    JoinedEntries (R env) env s k v es es' k' v' s' := by
  induction es generalizing s k v es' with
  | nil =>
    cases h
    exact .nil
  | cons e es ih =>
    obtain ⟨i, x, y⟩ := e
    obtain ⟨hx, hy⟩ := hR i x y List.mem_cons_self
    simp only [checkEntries, bind_eq_ok, pure_eq_ok] at h
    obtain ⟨⟨x', s₁⟩, hcx, ⟨y', s₂⟩, hcy, ⟨es'', k'', v'', s₃⟩, hes, heq⟩ := h
    cases heq
    exact .cons (hx env s x' s₁ hcx) rfl (hy env _ y' s₂ hcy) rfl
      (ih (fun i x y hm => hR i x y (List.mem_cons_of_mem _ hm)) hes)

theorem initialized_of_checkFields {fs fs' : List FieldInit} {message : Ty}
    (hR : ∀ i f x, .mk i f x ∈ fs → Yields R x)
    (h : checkFields env s message fs = .ok (fs', s')) :
    Initialized (R env) env message s fs fs' s' := by
  induction fs generalizing s fs' with
  | nil =>
    cases h
    exact .nil
  | cons f fs ih =>
    obtain ⟨i, f, x⟩ := f
    simp only [checkFields, bind_eq_ok, pure_eq_ok] at h
    obtain ⟨⟨x', s₁⟩, hx, ⟨fs'', s₂⟩, hfs, heq⟩ := h
    cases heq
    exact .cons (hR i f x List.mem_cons_self env s x' s₁ hx)
      (ih (fun i f x hm => hR i f x (List.mem_cons_of_mem _ hm)) hfs)

theorem rule_ident {name : String} (h : Completes env s (.ident id name) e' s') :
    Rule R env s (.ident id name) e' s' := by
  cases hd : env.lookupIdent? name with
  | some d =>
    simp only [Completes, checkExpr, hd, bind_eq_ok, pure_eq_ok] at h
    obtain ⟨s₁, hs, heq⟩ := h
    cases heq
    exact .ident hd hs
  | none =>
    simp only [Completes, checkExpr, hd, bind_eq_ok, pure_eq_ok] at h
    obtain ⟨s₁, hs, heq⟩ := h
    cases heq
    exact .undeclaredIdent hd hs

theorem rule_select {operand : Expr} {field : String} {testOnly : Bool} (hR : Yields R operand)
    (h : Completes env s (.select id operand field testOnly) e' s') :
    Rule R env s (.select id operand field testOnly) e' s' := by
  cases hd : selectedDecl? env operand field with
  | some d =>
    simp only [Completes, checkExpr, hd] at h
    cases testOnly with
    | true =>
      simp only [if_true, bind_eq_ok, pure_eq_ok] at h
      obtain ⟨s₁, hs, heq⟩ := h
      cases heq
      exact .testedIdent hd hs
    | false =>
      simp only [Bool.false_eq_true, if_false, bind_eq_ok, pure_eq_ok] at h
      obtain ⟨s₁, hs, heq⟩ := h
      cases heq
      exact .qualifiedIdent hd hs
  | none =>
    simp only [Completes, checkExpr, hd, bind_eq_ok, pure_eq_ok] at h
    obtain ⟨⟨operand', s₁⟩, ho, s₂, hs, heq⟩ := h
    cases heq
    exact .select hd (hR env s operand' s₁ ho) rfl hs

theorem rule_call {f : String} {args : List Expr} (hR : ∀ e ∈ args, Yields R e)
    (h : Completes env s (.call id f args) e' s') : Rule R env s (.call id f args) e' s' := by
  simp only [Completes, checkExpr, bind_eq_ok] at h
  obtain ⟨⟨args', s₁⟩, hargs, h⟩ := h
  cases hd : env.lookupFunction? f with
  | some d =>
    simp only [hd, bind_eq_ok, pure_eq_ok] at h
    obtain ⟨s₂, hs, heq⟩ := h
    cases heq
    exact .call (inTurn_of_checkAll hR hargs) hd hs
  | none =>
    simp only [hd, bind_eq_ok, pure_eq_ok] at h
    obtain ⟨s₂, hs, heq⟩ := h
    cases heq
    exact .undeclaredCall (inTurn_of_checkAll hR hargs) hd hs

theorem rule_method {target : Expr} {f : String} {args : List Expr} (ht : Yields R target)
    (hR : ∀ e ∈ args, Yields R e) (h : Completes env s (.method id target f args) e' s') :
    Rule R env s (.method id target f args) e' s' := by
  simp only [Completes, checkExpr, bind_eq_ok] at h
  obtain ⟨⟨args', s₁⟩, hargs, h⟩ := h
  have hturn := inTurn_of_checkAll hR hargs
  cases hn : namespacedFunction? env target f with
  | some d =>
    simp only [hn, bind_eq_ok, pure_eq_ok] at h
    obtain ⟨s₂, hs, heq⟩ := h
    cases heq
    exact .namespacedCall hturn hn hs
  | none =>
    simp only [hn, bind_eq_ok] at h
    obtain ⟨⟨target', s₂⟩, htarget, h⟩ := h
    cases hd : env.lookupFunction? f with
    | some d =>
      simp only [hd, bind_eq_ok, pure_eq_ok] at h
      obtain ⟨s₃, hs, heq⟩ := h
      cases heq
      exact .method hturn hn (ht env s₁ target' s₂ htarget) hd hs
    | none =>
      simp only [hd, bind_eq_ok, pure_eq_ok] at h
      obtain ⟨s₃, hs, heq⟩ := h
      cases heq
      exact .undeclaredMethod hturn hn (ht env s₁ target' s₂ htarget) hd hs

theorem rule_fold {iter accu : String} {range init condition step result : Expr}
    (hr : Yields R range) (hi : Yields R init) (hc : Yields R condition) (hs : Yields R step)
    (ha : Yields R result)
    (h : Completes env s (.fold id iter range accu init condition step result) e' s') :
    Rule R env s (.fold id iter range accu init condition step result) e' s' := by
  simp only [Completes, checkExpr, bind_eq_ok, pure_eq_ok] at h
  obtain ⟨⟨range', s₁⟩, hrange, ⟨init', s₂⟩, hinit, ⟨condition', s₄⟩, hcondition, ⟨step', s₅⟩,
    hstep, ⟨result', s₆⟩, hresult, s₇, hset, heq⟩ := h
  cases heq
  exact .fold (hr env s range' s₁ hrange) (hi env s₁ init' s₂ hinit) rfl rfl rfl
    (hc _ _ condition' s₄ hcondition) (hs _ _ step' s₅ hstep) (ha _ _ result' s₆ hresult) hset

theorem Completes.induction {e : Expr} (h : Completes env s e e' s')
    (rule : ∀ env s e e' s', Rule R env s e e' s' → R env s e e' s') : R env s e e' s' := by
  suffices hall : Yields R e from hall env s e' s' h
  clear h
  induction e with
  | const id v =>
    intro env s e' s' h
    simp only [Completes, checkExpr, bind_eq_ok, pure_eq_ok] at h
    obtain ⟨s₁, hs, heq⟩ := h
    cases heq
    exact rule _ _ _ _ _ (.const hs)
  | ident id name => exact fun env s e' s' h => rule _ _ _ _ _ (rule_ident h)
  | select id operand field testOnly ih =>
    exact fun env s e' s' h => rule _ _ _ _ _ (rule_select ih h)
  | call id f args ih => exact fun env s e' s' h => rule _ _ _ _ _ (rule_call ih h)
  | method id target f args iht ih =>
    exact fun env s e' s' h => rule _ _ _ _ _ (rule_method iht ih h)
  | list id elems ih =>
    intro env s e' s' h
    simp only [Completes, checkExpr, bind_eq_ok, pure_eq_ok] at h
    obtain ⟨⟨elems', t, s₁⟩, helems, s₂, hs, heq⟩ := h
    cases heq
    exact rule _ _ _ _ _ (.list (joined_of_checkElems ih helems) rfl hs)
  | message id name fields ih =>
    intro env s e' s' h
    simp only [Completes, checkExpr, bind_eq_ok, pure_eq_ok] at h
    obtain ⟨⟨name', t, s₁⟩, hname, s₂, hs, ⟨fields', s₃⟩, hfields, heq⟩ := h
    cases heq
    exact rule _ _ _ _ _ (.message hname hs (initialized_of_checkFields ih hfields))
  | map id entries ih =>
    intro env s e' s' h
    simp only [Completes, checkExpr, bind_eq_ok, pure_eq_ok] at h
    obtain ⟨⟨entries', k, v, s₁⟩, hentries, s₂, hs, heq⟩ := h
    cases heq
    exact rule _ _ _ _ _ (.map (joined_of_checkEntries ih hentries) rfl rfl hs)
  | fold id iter range accu init condition step result ihr ihi ihc ihs iha =>
    exact fun env s e' s' h => rule _ _ _ _ _ (rule_fold ihr ihi ihc ihs iha h)

end Inversion

section Completion

variable {env : Env} {s s' : State}

theorem InTurn.checkAll {es es' : List Expr} (h : InTurn (Completes env) s es es' s') :
    checkAll env s es = .ok (es', s') := by
  induction h with
  | nil => rfl
  | cons he _ ih =>
    simp only [Checker.checkAll, bind_eq_ok, pure_eq_ok]
    exact ⟨_, he, _, ih, rfl⟩

theorem Joined.checkElems {es es' : List Expr} {t t' : Option Ty}
    (h : Joined (Completes env) env s t es es' t' s') :
    checkElems env s t es = .ok (es', t', s') := by
  induction h with
  | nil => rfl
  | cons he hj _ ih =>
    simp only [Checker.checkElems, bind_eq_ok, pure_eq_ok]
    refine ⟨_, he, ?_⟩
    simp only [hj]
    exact ⟨_, ih, rfl⟩

theorem JoinedEntries.checkEntries {es es' : List Entry} {k v k' v' : Option Ty}
    (h : JoinedEntries (Completes env) env s k v es es' k' v' s') :
    checkEntries env s k v es = .ok (es', k', v', s') := by
  induction h with
  | nil => rfl
  | cons hx hk hy hv _ ih =>
    simp only [Checker.checkEntries, bind_eq_ok, pure_eq_ok]
    refine ⟨_, hx, ?_⟩
    simp only [hk]
    refine ⟨_, hy, ?_⟩
    simp only [hv]
    exact ⟨_, ih, rfl⟩

theorem Initialized.checkFields {fs fs' : List FieldInit} {message : Ty}
    (h : Initialized (Completes env) env message s fs fs' s') :
    checkFields env s message fs = .ok (fs', s') := by
  induction h with
  | nil => rfl
  | cons hx _ ih =>
    simp only [Checker.checkFields, bind_eq_ok, pure_eq_ok]
    exact ⟨_, hx, _, ih, rfl⟩

theorem Rule.completes {e e' : Expr} (h : Rule Completes env s e e' s') :
    Completes env s e e' s' := by
  rw [Completes]
  cases h with
  | const hs => simp only [checkExpr, hs]; rfl
  | ident hd hs => simp only [checkExpr, hd, hs]; rfl
  | undeclaredIdent hd hs => simp only [checkExpr, hd, hs]; rfl
  | qualifiedIdent hd hs => simp only [checkExpr, hd, hs]; rfl
  | testedIdent hd hs => simp only [checkExpr, hd, hs]; rfl
  | select hd ho hsel hs =>
    simp only [checkExpr, hd, bind_eq_ok, pure_eq_ok]
    refine ⟨_, ho, ?_⟩
    simp only [hsel]
    exact ⟨_, hs, rfl⟩
  | call hargs hd hs =>
    simp only [checkExpr, bind_eq_ok]
    refine ⟨_, hargs.checkAll, ?_⟩
    simp only [hd, bind_eq_ok, pure_eq_ok]
    exact ⟨_, hs, rfl⟩
  | undeclaredCall hargs hd hs =>
    simp only [checkExpr, bind_eq_ok]
    refine ⟨_, hargs.checkAll, ?_⟩
    simp only [hd, bind_eq_ok, pure_eq_ok]
    exact ⟨_, hs, rfl⟩
  | namespacedCall hargs hn hs =>
    simp only [checkExpr, bind_eq_ok]
    refine ⟨_, hargs.checkAll, ?_⟩
    simp only [hn, bind_eq_ok, pure_eq_ok]
    exact ⟨_, hs, rfl⟩
  | method hargs hn ht hd hs =>
    simp only [checkExpr, bind_eq_ok]
    refine ⟨_, hargs.checkAll, ?_⟩
    simp only [hn, bind_eq_ok]
    refine ⟨_, ht, ?_⟩
    simp only [hd, bind_eq_ok, pure_eq_ok]
    exact ⟨_, hs, rfl⟩
  | undeclaredMethod hargs hn ht hd hs =>
    simp only [checkExpr, bind_eq_ok]
    refine ⟨_, hargs.checkAll, ?_⟩
    simp only [hn, bind_eq_ok]
    refine ⟨_, ht, ?_⟩
    simp only [hd, bind_eq_ok, pure_eq_ok]
    exact ⟨_, hs, rfl⟩
  | list helems hf hs =>
    simp only [checkExpr, bind_eq_ok, pure_eq_ok]
    refine ⟨_, helems.checkElems, ?_⟩
    simp only [hf]
    exact ⟨_, hs, rfl⟩
  | map hentries hk hv hs =>
    simp only [checkExpr, bind_eq_ok, pure_eq_ok]
    refine ⟨_, hentries.checkEntries, ?_⟩
    simp only [hk, hv]
    exact ⟨_, hs, rfl⟩
  | message hname hs hfields =>
    simp only [checkExpr, bind_eq_ok, pure_eq_ok]
    exact ⟨_, hname, _, hs, _, hfields.checkFields, rfl⟩
  | fold hr hi hiter haccu hloop hc hs ha hset =>
    subst haccu hloop
    simp only [checkExpr, bind_eq_ok, pure_eq_ok]
    refine ⟨_, hr, _, hi, ?_⟩
    simp only [hiter]
    exact ⟨_, hc, _, hs, _, ha, _, hset, rfl⟩

theorem Completes.strongInduction {R : Env → State → Expr → Expr → State → Prop} {e e' : Expr}
    (h : Completes env s e e' s')
    (rule : ∀ env s e e' s',
      Rule (fun env s e e' s' => Completes env s e e' s' ∧ R env s e e' s') env s e e' s' →
      R env s e e' s') : R env s e e' s' := by
  refine (h.induction (R := fun env s e e' s' => Completes env s e e' s' ∧ R env s e e' s') ?_).2
  intro env s e e' s' hrule
  exact ⟨(hrule.mono fun _ _ _ _ _ h => h.1).completes, rule env s e e' s' hrule⟩

theorem Completes.rule {e e' : Expr} (h : Completes env s e e' s') :
    Rule Completes env s e e' s' :=
  h.strongInduction (R := Rule Completes) fun _ _ _ _ _ hrule => hrule.mono fun _ _ _ _ _ h => h.1

end Completion

end ExprTyping.Checker

namespace ExprTyping

open Checker

theorem check_eq_ok_iff {env : Env} {source : Source} {e : Expr} {r : CheckResult} :
    check env source e = .ok r ↔ ∃ e' s, Completes env {} e e' s ∧
      r = ⟨e', s.types.mapValues (s.bindings.subst true), s.references,
        s.reports.map fun p => .located source p.1 p.2⟩ := by
  simp only [check, bind_eq_ok, pure_eq_ok]
  constructor
  · rintro ⟨⟨e', s⟩, h, rfl⟩
    exact ⟨e', s, h, rfl⟩
  · rintro ⟨e', s, h, rfl⟩
    exact ⟨⟨e', s⟩, h, rfl⟩

end ExprTyping
