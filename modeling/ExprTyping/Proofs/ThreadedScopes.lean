import ExprTyping.Proofs.Run

/-!
# Checks that carry their environment

Here the environment is part of what a check changes: a fold opens two scopes in it, closes one of
them after its step and puts the outer environment back after its result, and everything else goes
on in the environment that the last check left. `walkExpr_eq` says that this is `runExpr`, point by
point, and that every check leaves the environment it began in.
-/

namespace ExprTyping

theorem Env.exit_bind_enter (env : Env) (d : IdentDecl) : (env.enter.bind d).exit = env := by
  have hpop : (env.scopes.push.addIdent d).pop? = some env.scopes := env.scopes.pop?_push
  rw [exit, bind, enter, hpop, Option.getD_some]

namespace Checker

open Run

structure Walker where
  env : Env
  state : State

mutual
def walkExpr (w : Walker) (e : Expr) : Run (Expr × Walker) := do
  pass w.env w.state (.enter e)
  match e with
  | .const id v => do
    let s ← annotate w.env w.state id v.ty
    return (.const id v, { w with state := s })
  | .ident id name =>
    match w.env.lookupIdent? name with
    | some d => do
      let s ← runIdent w.env w.state id d
      return (.ident id d.name, { w with state := s })
    | none => do
      let s ← runUndeclared w.env w.state id name
      return (.ident id name, { w with state := s })
  | .select id operand field testOnly =>
    match selectedDecl? w.env operand field with
    | some d =>
      if testOnly then do
        let s ← annotate w.env (w.state.report id .notAFieldSelection) id .bool
        return (.select id operand field testOnly, { w with state := s })
      else do
        let s ← runIdent w.env w.state id d
        return (.ident id d.name, { w with state := s })
    | none => do
      let (operand', w) ← walkExpr w operand
      let (t, s) ← goOn w.env
        (selection w.env w.state id (w.state.subst (w.state.typeAt operand.id)) field)
      let s ← annotate w.env s id (s.subst (if testOnly then .bool else t))
      return (.select id operand' field testOnly, { w with state := s })
  | .call id f args => do
    let (args', w) ← walkAll w args
    match w.env.lookupFunction? f with
    | some d =>
      let s ← runCall w.env w.state id d false (args.map Expr.id)
      return (.call id d.name args', { w with state := s })
    | none =>
      let s ← runUndeclared w.env w.state id f
      return (.call id f args', { w with state := s })
  | .method id target f args => do
    let (args', w) ← walkAll w args
    let env := w.env
    match namespacedFunction? env target f with
    | some d =>
      let s ← runCall w.env w.state id d false (args.map Expr.id)
      return (.call id d.name args', { w with state := s })
    | none =>
      let (target', w) ← walkExpr w target
      match env.lookupFunction? f with
      | some d =>
        let s ← runCall w.env w.state id d true (target.id :: args.map Expr.id)
        return (.method id target' f args', { w with state := s })
      | none =>
        let s ← runUndeclared w.env w.state id f
        return (.method id target' f args', { w with state := s })
  | .list id elems => do
    let (elems', t, w) ← walkElems w none elems
    let (t, s) ← goOn w.env (w.state.orFresh t)
    let s ← annotate w.env s id (.list t)
    return (.list id elems', { w with state := s })
  | .map id entries => do
    let (entries', k, v, w) ← walkEntries w none none entries
    let (k, s) ← goOn w.env (w.state.orFresh k)
    let (v, s) ← goOn w.env (s.orFresh v)
    let s ← annotate w.env s id (.map k v)
    return (.map id entries', { w with state := s })
  | .message id name fields => do
    let (name', message, s) ← runLiteral w.env w.state id name
    let s ← annotate w.env s id (literalType message)
    let (fields', w) ← walkFields { w with state := s } message fields
    return (.message id name' fields', w)
  | .fold id iter range accu init condition step result => do
    let (range', w) ← walkExpr w range
    let (init', w) ← walkExpr w init
    let accuType := w.state.typeAt init.id
    let (iterTy, s) ← goOn w.env
      (iterType w.state range.id (w.state.subst (w.state.typeAt range.id)))
    let outer := w.env
    let env := w.env.enter.bind { name := accu, ty := accuType }
    let env := env.enter.bind { name := iter, ty := iterTy }
    let (condition', w) ← walkExpr ⟨env, s⟩ condition
    let s := w.state.expect condition.id .bool
    let (step', w) ← walkExpr { w with state := s } step
    let s := w.state.expect step.id accuType
    let (result', w) ← walkExpr ⟨w.env.exit, s⟩ result
    let w := { w with env := outer }
    let s ← annotate w.env w.state id (w.state.subst (w.state.typeAt result.id))
    return (.fold id iter range' accu init' condition' step' result', { w with state := s })

def walkAll (w : Walker) : List Expr → Run (List Expr × Walker)
  | [] => return ([], w)
  | e :: es => do
    let (e', w) ← walkExpr w e
    let (es', w) ← walkAll w es
    return (e' :: es', w)

def walkElems (w : Walker) (t : Option Ty) : List Expr → Run (List Expr × Option Ty × Walker)
  | [] => return ([], t, w)
  | e :: es => do
    let (e', w) ← walkExpr w e
    let (u, s) ← runJoin w.env w.state e.id t (w.state.typeAt e.id)
    let (es', t, w) ← walkElems { w with state := s } (some u) es
    return (e' :: es', t, w)

def walkEntries (w : Walker) (k v : Option Ty) :
    List Entry → Run (List Entry × Option Ty × Option Ty × Walker)
  | [] => return ([], k, v, w)
  | .mk id key value :: es => do
    let (key', w) ← walkExpr w key
    let (k, s) ← runJoin w.env w.state key.id k (w.state.typeAt key.id)
    let (value', w) ← walkExpr { w with state := s } value
    let (v, s) ← runJoin w.env w.state value.id v (w.state.typeAt value.id)
    let (es', k, v, w) ← walkEntries { w with state := s } (some k) (some v) es
    return (.mk id key' value' :: es', k, v, w)

def walkFields (w : Walker) (message : Ty) : List FieldInit → Run (List FieldInit × Walker)
  | [] => return ([], w)
  | .mk id field value :: fs => do
    let (value', w) ← walkExpr w value
    let s := initField w.env w.state message id field value.id
    pass w.env s .proceed
    let (fs', w) ← walkFields { w with state := s } message fs
    return (.mk id field value' :: fs', w)
end

section Threading

variable {env : Env} {s : State}

def Walks (env : Env) (e : Expr) : Prop :=
  ∀ s, walkExpr ⟨env, s⟩ e = Prod.map id (Walker.mk env) <$> runExpr env s e

theorem walkAll_eq {es : List Expr} (h : ∀ e ∈ es, Walks env e) :
    walkAll ⟨env, s⟩ es = Prod.map id (Walker.mk env) <$> runAll env s es := by
  induction es generalizing s with
  | nil => simp [walkAll, runAll]
  | cons e es ih =>
    rw [List.forall_mem_cons] at h
    simp [walkAll, runAll, h.1 s, ih h.2]

theorem walkElems_eq {es : List Expr} {t : Option Ty} (h : ∀ e ∈ es, Walks env e) :
    walkElems ⟨env, s⟩ t es =
      Prod.map id (Prod.map id (Walker.mk env)) <$> runElems env s t es := by
  induction es generalizing s t with
  | nil => simp [walkElems, runElems]
  | cons e es ih =>
    rw [List.forall_mem_cons] at h
    simp [walkElems, runElems, h.1 s, ih h.2]

theorem walkEntries_eq {es : List Entry} {k v : Option Ty}
    (h : ∀ i x y, .mk i x y ∈ es → Walks env x ∧ Walks env y) :
    walkEntries ⟨env, s⟩ k v es =
      Prod.map id (Prod.map id (Prod.map id (Walker.mk env))) <$> runEntries env s k v es := by
  induction es generalizing s k v with
  | nil => simp [walkEntries, runEntries]
  | cons e es ih =>
    obtain ⟨i, x, y⟩ := e
    obtain ⟨hx, hy⟩ := h i x y List.mem_cons_self
    have htail := fun {s k v} => @ih s k v fun i x y hm => h i x y (List.mem_cons_of_mem _ hm)
    simp [walkEntries, runEntries, hx s, hy _, htail]

theorem walkFields_eq {fs : List FieldInit} {message : Ty}
    (h : ∀ i f x, .mk i f x ∈ fs → Walks env x) :
    walkFields ⟨env, s⟩ message fs =
      Prod.map id (Walker.mk env) <$> runFields env s message fs := by
  induction fs generalizing s with
  | nil => simp [walkFields, runFields]
  | cons f fs ih =>
    obtain ⟨i, f, x⟩ := f
    have hx := h i f x List.mem_cons_self
    have htail := fun {s} => @ih s fun i f x hm => h i f x (List.mem_cons_of_mem _ hm)
    simp [walkFields, runFields, hx s, htail]

/-- The scope of the iteration variable is closed in the environment that the step leaves. -/
theorem walks_fold {id : Int} {iter accu : String} {range init condition step result : Expr}
    (hr : Walks env range) (hi : Walks env init) (hc : ∀ env, Walks env condition)
    (hs : ∀ env, Walks env step) (ha : ∀ env, Walks env result) :
    Walks env (.fold id iter range accu init condition step result) := by
  intro s
  simp [walkExpr, runExpr, hr _, hi _, hc _ _, hs _ _, ha _ _, Env.exit_bind_enter]

theorem walkExpr_eq (env : Env) (s : State) (e : Expr) :
    walkExpr ⟨env, s⟩ e = Prod.map id (Walker.mk env) <$> runExpr env s e := by
  suffices h : ∀ env, Walks env e from h env s
  induction e with
  | const id v =>
    intro env s
    simp [walkExpr, runExpr]
  | ident id name =>
    intro env s
    cases h : env.lookupIdent? name <;> simp [walkExpr, runExpr, h]
  | select id operand field testOnly ih =>
    intro env s
    cases h : selectedDecl? env operand field with
    | some d => cases testOnly <;> simp [walkExpr, runExpr, h]
    | none => simp [walkExpr, runExpr, h, ih env _]
  | call id f args ih =>
    intro env s
    have hall := fun {s} => walkAll_eq (s := s) fun e he => ih e he env
    cases h : env.lookupFunction? f <;> simp [walkExpr, runExpr, h, hall]
  | method id target f args iht ih =>
    intro env s
    have hall := fun {s} => walkAll_eq (s := s) fun e he => ih e he env
    cases hn : namespacedFunction? env target f with
    | some d => simp [walkExpr, runExpr, hn, hall]
    | none => cases h : env.lookupFunction? f <;> simp [walkExpr, runExpr, hn, h, hall, iht env _]
  | list id elems ih =>
    intro env s
    simp [walkExpr, runExpr, walkElems_eq fun e he => ih e he env]
  | message id name fields ih =>
    intro env s
    simp [walkExpr, runExpr, walkFields_eq fun i f v hv => ih i f v hv env]
  | map id entries ih =>
    intro env s
    simp [walkExpr, runExpr, walkEntries_eq
      fun i k v hv => ⟨(ih i k v hv).1 env, (ih i k v hv).2 env⟩]
  | fold id iter range accu init condition step result ihr ihi ihc ihs iha =>
    exact fun env => walks_fold (ihr env) (ihi env) ihc ihs iha

theorem points_walkExpr (env : Env) (s : State) (e : Expr) :
    (walkExpr ⟨env, s⟩ e).points = (runExpr env s e).points := by
  rw [walkExpr_eq, map_eq_pure_bind]
  cases h : (runExpr env s e).result with
  | ok r => simp [bind_of_ok h, pure, Run.pure]
  | error e => simp [bind_of_error h]

theorem result_walkExpr (env : Env) (s : State) (e : Expr) :
    (walkExpr ⟨env, s⟩ e).result = Prod.map id (Walker.mk env) <$> checkExpr env s e := by
  rw [walkExpr_eq, map_eq_pure_bind, result_bind, result_runExpr, map_eq_pure_bind]
  rfl

end Threading

end Checker

end ExprTyping
