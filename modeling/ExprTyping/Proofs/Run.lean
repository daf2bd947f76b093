import ExprTyping.Checker.Rules

/-!
# Runs

A check together with the points it passes: `runExpr` is `checkExpr` over a monad that keeps, also
when the check fails, the environment and the state at each node it enters, at each overload it
tries, before each annotation it makes and after each other change of the state. `result_runExpr`
says that nothing else is different.

What holds at all points of a run and of its result is stated by `Run.Sat` and goes through `>>=`.
-/

namespace ExprTyping

@[elab_as_elim, induction_eliminator]
theorem Expr.induction {motive : Expr → Prop}
    (const : ∀ id v, motive (.const id v)) (ident : ∀ id name, motive (.ident id name))
    (select : ∀ id operand field testOnly, motive operand →
      motive (.select id operand field testOnly))
    (call : ∀ id f args, (∀ e ∈ args, motive e) → motive (.call id f args))
    (method : ∀ id target f args, motive target → (∀ e ∈ args, motive e) →
      motive (.method id target f args))
    (list : ∀ id elems, (∀ e ∈ elems, motive e) → motive (.list id elems))
    (message : ∀ id name fields, (∀ i f v, FieldInit.mk i f v ∈ fields → motive v) →
      motive (.message id name fields))
    (map : ∀ id entries, (∀ i k v, Entry.mk i k v ∈ entries → motive k ∧ motive v) →
      motive (.map id entries))
    (fold : ∀ id iter range accu init condition step result, motive range → motive init →
      motive condition → motive step → motive result →
      motive (.fold id iter range accu init condition step result))
    (e : Expr) : motive e := by
  refine @Expr.rec motive (fun | .mk _ _ v => motive v) (fun | .mk _ k v => motive k ∧ motive v)
    (fun es => ∀ e ∈ es, motive e) (fun fs => ∀ i f v, .mk i f v ∈ fs → motive v)
    (fun es => ∀ i k v, .mk i k v ∈ es → motive k ∧ motive v)
    const ident select call method list message map fold
    (fun _ _ _ hv => hv) (fun _ _ _ hk hv => ⟨hk, hv⟩)
    (by simp) (fun _ _ he hes => List.forall_mem_cons.2 ⟨he, hes⟩) (by simp) ?_ (by simp) ?_ e
  · rintro _ _ hf hfs i f v (_ | ⟨_, h⟩)
    · exact hf
    · exact hfs i f v h
  · rintro _ _ he hes i k v (_ | ⟨_, h⟩)
    · exact he
    · exact hes i k v h

def State.trying (s : State) (t : Trial) : State :=
  { s with bindings := t.bindings, nextVar := t.nextVar }

namespace Checker

inductive Action
  | enter (e : Expr)
  | attempt (args : List Ty) (o : Overload)
  | annotate (id : Int) (t : Ty)
  | refer (id : Int) (r : Reference)
  | join (id : Int) (previous current : Ty)
  | proceed

def Action.isAttempt : Action → Bool
  | .attempt _ _ => true
  | _ => false

structure Point where
  env : Env
  state : State
  action : Action

structure Run (α : Type) where
  points : List Point
  result : Checked α

namespace Run

variable {α β : Type}

protected def pure (a : α) : Run α := ⟨[], .ok a⟩

protected def bind (x : Run α) (f : α → Run β) : Run β :=
  match x.result with
  | .ok a => ⟨x.points ++ (f a).points, (f a).result⟩
  | .error e => ⟨x.points, .error e⟩

instance : Monad Run where
  pure := Run.pure
  bind := Run.bind

def pass (env : Env) (s : State) (a : Action) : Run Unit := ⟨[⟨env, s, a⟩], .ok ()⟩

def annotate (env : Env) (s : State) (id : Int) (t : Ty) : Run State :=
  ⟨[⟨env, s, .annotate id t⟩], s.setType id t⟩

def refer (env : Env) (s : State) (id : Int) (r : Reference) : Run State :=
  ⟨[⟨env, s, .refer id r⟩], s.setReference id r⟩

def goOn (env : Env) (r : α × State) : Run (α × State) := ⟨[⟨env, r.2, .proceed⟩], .ok r⟩

def joining (env : Env) (s : State) (id : Int) (previous : Option Ty) (current : Ty) : Run Unit :=
  ⟨previous.toList.map fun t => ⟨env, s, .join id t current⟩, .ok ()⟩

def attempts (env : Env) (s : State) (args : List Ty) : Trial → List Overload → List Point
  | _, [] => []
  | t, o :: os =>
    ⟨env, s.trying t, .attempt args o⟩ :: attempts env s args (t.overload args o) os

def attemptAll (env : Env) (s : State) (args : List Ty) (t : Trial) (os : List Overload) :
    Run Unit :=
  ⟨attempts env s args t os, .ok ()⟩

theorem bind_of_ok {x : Run α} {f : α → Run β} {a : α} (h : x.result = .ok a) :
    x >>= f = ⟨x.points ++ (f a).points, (f a).result⟩ := by
  change Run.bind x f = _
  rw [Run.bind, h]

theorem bind_of_error {x : Run α} {f : α → Run β} {e : AnnotatedTwice} (h : x.result = .error e) :
    x >>= f = ⟨x.points, .error e⟩ := by
  change Run.bind x f = _
  rw [Run.bind, h]

@[simp] theorem result_pure (a : α) : (pure a : Run α).result = pure a := rfl

@[simp] theorem result_bind (x : Run α) (f : α → Run β) :
    (x >>= f).result = x.result >>= fun a => (f a).result := by
  cases h : x.result with
  | ok a => rw [bind_of_ok h]; rfl
  | error e => rw [bind_of_error h]; rfl

@[simp] theorem result_pass (env : Env) (s : State) (a : Action) :
    (pass env s a).result = pure () := rfl

@[simp] theorem result_annotate (env : Env) (s : State) (id : Int) (t : Ty) :
    (annotate env s id t).result = s.setType id t := rfl

@[simp] theorem result_refer (env : Env) (s : State) (id : Int) (r : Reference) :
    (refer env s id r).result = s.setReference id r := rfl

@[simp] theorem result_joining (env : Env) (s : State) (id : Int) (previous : Option Ty)
    (current : Ty) : (joining env s id previous current).result = pure () := rfl

@[simp] theorem result_attemptAll (env : Env) (s : State) (args : List Ty) (t : Trial)
    (os : List Overload) : (attemptAll env s args t os).result = pure () := rfl

@[simp] theorem result_goOn (env : Env) (r : α × State) : (goOn env r).result = pure r := rfl

section Sat

variable {x : Run α} {f : α → Run β} {I : Point → Prop} {Q Q' : α → Prop} {R : β → Prop}
  {env : Env} {s : State}

/-- The invariant holds at all points of the run, and the postcondition of its result. -/
def Sat (x : Run α) (I : Point → Prop) (Q : α → Prop) : Prop :=
  (∀ p ∈ x.points, I p) ∧ ∀ a, x.result = .ok a → Q a

theorem Sat.pure {a : α} (h : Q a) : (Pure.pure a : Run α).Sat I Q := by
  refine ⟨nofun, fun b hb => ?_⟩
  cases hb
  exact h

theorem Sat.bind (hx : x.Sat I Q) (hf : ∀ a, Q a → (f a).Sat I R) : (x >>= f).Sat I R := by
  obtain ⟨hI, hQ⟩ := hx
  cases hr : x.result with
  | ok a =>
    obtain ⟨hI', hR⟩ := hf a (hQ a hr)
    rw [bind_of_ok hr]
    exact ⟨fun p hp => (List.mem_append.1 hp).elim (hI p) (hI' p), hR⟩
  | error e =>
    rw [bind_of_error hr]
    exact ⟨hI, nofun⟩

theorem Sat.mono (h : x.Sat I Q) (hQ : ∀ a, Q a → Q' a) : x.Sat I Q' :=
  ⟨h.1, fun a ha => hQ a (h.2 a ha)⟩

theorem sat_single {a : Action} {r : Checked α} (hI : I ⟨env, s, a⟩) (hQ : ∀ b, r = .ok b → Q b) :
    Sat ⟨[⟨env, s, a⟩], r⟩ I Q :=
  ⟨fun p hp => by rwa [List.mem_singleton.1 hp], hQ⟩

theorem sat_pass {a : Action} (hI : I ⟨env, s, a⟩) (hx : x.Sat I Q) :
    (pass env s a >>= fun _ => x).Sat I Q :=
  .bind (Q := fun _ => True) (sat_single hI fun _ _ => trivial) fun _ _ => hx

theorem sat_goOn {Q : α × State → Prop} {r : α × State} (hI : I ⟨env, r.2, .proceed⟩) (hQ : Q r) :
    (goOn env r).Sat I Q := by
  refine sat_single hI fun b hb => ?_
  cases hb
  exact hQ

end Sat

end Run

open Run

def runIdent (env : Env) (s : State) (id : Int) (d : IdentDecl) : Run State := do
  let s ← annotate env s id d.ty
  refer env s id (.ofIdent d)

def runUndeclared (env : Env) (s : State) (id : Int) (name : String) : Run State := do
  let s ← annotate env s id .error
  return s.reportUndeclared env id name

def runCall (env : Env) (s : State) (id : Int) (f : FunctionDecl) (receiver : Bool)
    (args : List Int) : Run State := do
  let types := args.map s.typeAt
  let enabled := fun o => !env.options.isDisabled o
  let start : Trial := ⟨s.bindings, s.nextVar, none⟩
  let trial := start.all enabled receiver types f.overloads
  attemptAll env s types start
    (f.overloads.filter fun o => enabled o.id && o.receiver == receiver)
  let s := s.trying trial
  match trial.found with
  | some r =>
    let s ← annotate env s id r.result
    refer env s id { name := f.name, overloads := r.overloads }
  | none =>
    let s := s.report id
      (.noMatchingOverload f.name (types.map (s.bindings.subst true)) receiver)
    annotate env s id .error

def runJoin (env : Env) (s : State) (id : Int) (previous : Option Ty) (current : Ty) :
    Run (Ty × State) := do
  joining env s id previous current
  goOn env (join env s id previous current)

def runLiteral (env : Env) (s : State) (id : Int) (name : String) : Run (String × Ty × State) :=
  match env.lookupIdent? name with
  | none => return (name, .error, s.reportUndeclared env id name)
  | some d => do
    let s ← refer env s id { name := d.name }
    let (t, s) ← goOn env (messageType s id d.ty)
    return (d.name, t, s)

mutual
def runExpr (env : Env) (s : State) (e : Expr) : Run (Expr × State) := do
  pass env s (.enter e)
  match e with
  | .const id v => do
    let s ← annotate env s id v.ty
    return (.const id v, s)
  | .ident id name =>
    match env.lookupIdent? name with
    | some d => do
      let s ← runIdent env s id d
      return (.ident id d.name, s)
    | none => do
      let s ← runUndeclared env s id name
      return (.ident id name, s)
  | .select id operand field testOnly =>
    match selectedDecl? env operand field with
    | some d =>
      if testOnly then do
        let s ← annotate env (s.report id .notAFieldSelection) id .bool
        return (.select id operand field testOnly, s)
      else do
        let s ← runIdent env s id d
        return (.ident id d.name, s)
    | none => do
      let (operand', s) ← runExpr env s operand
      let (t, s) ← goOn env (selection env s id (s.subst (s.typeAt operand.id)) field)
      let s ← annotate env s id (s.subst (if testOnly then .bool else t))
      return (.select id operand' field testOnly, s)
  | .call id f args => do
    let (args', s) ← runAll env s args
    match env.lookupFunction? f with
    | some d =>
      let s ← runCall env s id d false (args.map Expr.id)
      return (.call id d.name args', s)
    | none =>
      let s ← runUndeclared env s id f
      return (.call id f args', s)
  | .method id target f args => do
    let (args', s) ← runAll env s args
    match namespacedFunction? env target f with
    | some d =>
      let s ← runCall env s id d false (args.map Expr.id)
      return (.call id d.name args', s)
    | none =>
      let (target', s) ← runExpr env s target
      match env.lookupFunction? f with
      | some d =>
        let s ← runCall env s id d true (target.id :: args.map Expr.id)
        return (.method id target' f args', s)
      | none =>
        let s ← runUndeclared env s id f
        return (.method id target' f args', s)
  | .list id elems => do
    let (elems', t, s) ← runElems env s none elems
    let (t, s) ← goOn env (s.orFresh t)
    let s ← annotate env s id (.list t)
    return (.list id elems', s)
  | .map id entries => do
    let (entries', k, v, s) ← runEntries env s none none entries
    let (k, s) ← goOn env (s.orFresh k)
    let (v, s) ← goOn env (s.orFresh v)
    let s ← annotate env s id (.map k v)
    return (.map id entries', s)
  | .message id name fields => do
    let (name', message, s) ← runLiteral env s id name
    let s ← annotate env s id (literalType message)
    let (fields', s) ← runFields env s message fields
    return (.message id name' fields', s)
  | .fold id iter range accu init condition step result => do
    let (range', s) ← runExpr env s range
    let (init', s) ← runExpr env s init
    let accuType := s.typeAt init.id
    let (iterTy, s) ← goOn env (iterType s range.id (s.subst (s.typeAt range.id)))
    let accuEnv := env.enter.bind { name := accu, ty := accuType }
    let loopEnv := accuEnv.enter.bind { name := iter, ty := iterTy }
    let (condition', s) ← runExpr loopEnv s condition
    let s := s.expect condition.id .bool
    let (step', s) ← runExpr loopEnv s step
    let s := s.expect step.id accuType
    let (result', s) ← runExpr accuEnv s result
    let s ← annotate env s id (s.subst (s.typeAt result.id))
    return (.fold id iter range' accu init' condition' step' result', s)

def runAll (env : Env) (s : State) : List Expr → Run (List Expr × State)
  | [] => return ([], s)
  | e :: es => do
    let (e', s) ← runExpr env s e
    let (es', s) ← runAll env s es
    return (e' :: es', s)

def runElems (env : Env) (s : State) (t : Option Ty) :
    List Expr → Run (List Expr × Option Ty × State)
  | [] => return ([], t, s)
  | e :: es => do
    let (e', s) ← runExpr env s e
    let (u, s) ← runJoin env s e.id t (s.typeAt e.id)
    let (es', t, s) ← runElems env s (some u) es
    return (e' :: es', t, s)

def runEntries (env : Env) (s : State) (k v : Option Ty) :
    List Entry → Run (List Entry × Option Ty × Option Ty × State)
  | [] => return ([], k, v, s)
  | .mk id key value :: es => do
    let (key', s) ← runExpr env s key
    let (k, s) ← runJoin env s key.id k (s.typeAt key.id)
    let (value', s) ← runExpr env s value
    let (v, s) ← runJoin env s value.id v (s.typeAt value.id)
    let (es', k, v, s) ← runEntries env s (some k) (some v) es
    return (.mk id key' value' :: es', k, v, s)

def runFields (env : Env) (s : State) (message : Ty) :
    List FieldInit → Run (List FieldInit × State)
  | [] => return ([], s)
  | .mk id field value :: fs => do
    let (value', s) ← runExpr env s value
    let s := initField env s message id field value.id
    pass env s .proceed
    let (fs', s) ← runFields env s message fs
    return (.mk id field value' :: fs', s)
end

section Result

variable (env : Env) (s : State) (id : Int)

@[simp] theorem result_runIdent (d : IdentDecl) :
    (runIdent env s id d).result = annotateIdent s id d := by
  simp [runIdent, annotateIdent]

@[simp] theorem result_runUndeclared (name : String) :
    (runUndeclared env s id name).result = annotateUndeclared env s id name := by
  simp [runUndeclared, annotateUndeclared]

@[simp] theorem result_runCall (f : FunctionDecl) (receiver : Bool) (args : List Int) :
    (runCall env s id f receiver args).result = resolveCall env s id f receiver args := by
  simp only [runCall, resolveCall, State.trying, result_bind, result_attemptAll, pure_bind]
  split <;> simp_all

@[simp] theorem result_runJoin (previous : Option Ty) (current : Ty) :
    (runJoin env s id previous current).result = pure (join env s id previous current) := by
  simp [runJoin]

theorem sat_runJoin {I : Point → Prop} {Q : Ty × State → Prop} {previous : Option Ty}
    {current : Ty} (hjoin : ∀ t, I ⟨env, s, .join id t current⟩)
    (hgoOn : I ⟨env, (join env s id previous current).2, .proceed⟩)
    (hQ : Q (join env s id previous current)) : (runJoin env s id previous current).Sat I Q := by
  refine .bind (Q := fun _ => True) ⟨fun p hp => ?_, fun _ _ => trivial⟩ fun _ _ =>
    sat_goOn hgoOn hQ
  obtain ⟨t, -, rfl⟩ := List.mem_map.1 hp
  exact hjoin t

@[simp] theorem result_runLiteral (name : String) :
    (runLiteral env s id name).result = messageLiteral env s id name := by
  cases h : env.lookupIdent? name <;> simp [runLiteral, messageLiteral, h]

variable {env s}

theorem result_runAll {es : List Expr}
    (h : ∀ e ∈ es, ∀ s, (runExpr env s e).result = checkExpr env s e) :
    (runAll env s es).result = checkAll env s es := by
  induction es generalizing s with
  | nil => simp [runAll, checkAll]
  | cons e es ih =>
    simp only [List.forall_mem_cons] at h
    simp [runAll, checkAll, h.1, ih h.2]

theorem result_runElems {es : List Expr} {t : Option Ty}
    (h : ∀ e ∈ es, ∀ s, (runExpr env s e).result = checkExpr env s e) :
    (runElems env s t es).result = checkElems env s t es := by
  induction es generalizing s t with
  | nil => simp [runElems, checkElems]
  | cons e es ih =>
    simp only [List.forall_mem_cons] at h
    simp [runElems, checkElems, h.1, ih h.2]

theorem result_runEntries {es : List Entry} {k v : Option Ty}
    (h : ∀ i x y, .mk i x y ∈ es → (∀ s, (runExpr env s x).result = checkExpr env s x) ∧
      ∀ s, (runExpr env s y).result = checkExpr env s y) :
    (runEntries env s k v es).result = checkEntries env s k v es := by
  induction es generalizing s k v with
  | nil => simp [runEntries, checkEntries]
  | cons e es ih =>
    obtain ⟨i, x, y⟩ := e
    have hxy := h i x y (by simp)
    have htail := fun {s k v} => @ih s k v fun i x y hm => h i x y (by simp [hm])
    simp [runEntries, checkEntries, hxy, htail]

theorem result_runFields {fs : List FieldInit} {message : Ty}
    (h : ∀ i f x, .mk i f x ∈ fs → ∀ s, (runExpr env s x).result = checkExpr env s x) :
    (runFields env s message fs).result = checkFields env s message fs := by
  induction fs generalizing s with
  | nil => simp [runFields, checkFields]
  | cons f fs ih =>
    obtain ⟨i, f, x⟩ := f
    have hx := h i f x (by simp)
    have htail := fun {s} => @ih s fun i f x hm => h i f x (by simp [hm])
    simp [runFields, checkFields, hx, htail]

@[simp] theorem result_runExpr (env : Env) (s : State) (e : Expr) :
    (runExpr env s e).result = checkExpr env s e := by
  induction e generalizing env s with
  | const id v => simp [runExpr, checkExpr]
  | ident id name => cases h : env.lookupIdent? name <;> simp [runExpr, checkExpr, h]
  | select id operand field testOnly ih =>
    cases h : selectedDecl? env operand field with
    | some d => cases testOnly <;> simp [runExpr, checkExpr, h]
    | none => simp [runExpr, checkExpr, h, ih]
  | call id f args ih =>
    have hall := fun {s} => result_runAll (s := s) fun e he => ih e he env
    cases h : env.lookupFunction? f <;> simp [runExpr, checkExpr, h, hall]
  | method id target f args iht ih =>
    have hall := fun {s} => result_runAll (s := s) fun e he => ih e he env
    cases hn : namespacedFunction? env target f with
    | some d => simp [runExpr, checkExpr, hn, hall]
    | none => cases h : env.lookupFunction? f <;> simp [runExpr, checkExpr, hn, h, hall, iht]
  | list id elems ih => simp [runExpr, checkExpr, result_runElems fun e he => ih e he env]
  | message id name fields ih =>
    simp [runExpr, checkExpr, result_runFields fun i f v hv => ih i f v hv env]
  | map id entries ih =>
    simp [runExpr, checkExpr, result_runEntries
      fun i k v hv => ⟨(ih i k v hv).1 env, (ih i k v hv).2 env⟩]
  | fold id iter range accu init condition step result ihr ihi ihc ihs iha =>
    simp [runExpr, checkExpr, ihr, ihi, ihc, ihs, iha]

end Result

instance : LawfulMonad Run := by
  refine LawfulMonad.mk' Run ?_ (fun a f => ?_) (fun x f g => ?_)
  · rintro α ⟨ps, r⟩
    cases r <;> simp [Functor.map, Run.bind, Run.pure]
  · rw [bind_of_ok (x := pure a) rfl]
    rfl
  · cases hx : x.result with
    | error e => simp [bind_of_error hx, bind_of_error (x := ⟨x.points, .error e⟩) rfl]
    | ok a =>
      simp only [bind_of_ok hx]
      cases hf : (f a).result with
      | error e => simp [bind_of_error, hf]
      | ok b => simp [bind_of_ok hf, bind_of_ok (x := ⟨x.points ++ (f a).points, .ok b⟩) rfl]

end Checker

end ExprTyping
