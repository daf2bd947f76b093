import ExprTyping.Checker.State
import ExprTyping.Expr.Basic

/-!
# Checking

One rule for each kind of node. A rule checks the children, types the node and notes what it refers
to; names that resolve are written in full into the checked tree. Whatever is wrong is reported and
the node typed as an error, so that the rest is still checked.
-/

namespace ExprTyping

namespace Checker

abbrev Checked := Except AnnotatedTwice

def fieldType (env : Env) (s : State) (id : Int) (message field : String) : Ty × State :=
  match env.provider.message? message with
  | none => (.error, s.report id (.unexpectedFailedResolution message))
  | some _ =>
    match env.provider.field? message field with
    | some t => (t, s)
    | none => (.error, s.report id (.undefinedField field))

def forceDyn (s : State) (t : Ty) : State := (s.unify .dyn t).2

def selection (env : Env) (s : State) (id : Int) (operand : Ty) (field : String) : Ty × State :=
  match operand with
  | .map _ value => (value, s)
  | .message m => fieldType env s id m field
  | .param n => (.dyn, forceDyn s (.param n))
  | .dyn => (.dyn, s)
  | .error => (.dyn, s)
  | t => (.error, s.report id (.fieldSelectionUnsupported t))

def selectedDecl? (env : Env) (operand : Expr) (field : String) : Option IdentDecl :=
  operand.qualifiedName?.bind fun p => env.lookupIdent? (p ++ "." ++ field)

def namespacedFunction? (env : Env) (target : Expr) (function : String) : Option FunctionDecl :=
  target.qualifiedName?.bind fun p => env.lookupFunction? (p ++ "." ++ function)

def annotateIdent (s : State) (id : Int) (d : IdentDecl) : Checked State := do
  let s ← s.setType id d.ty
  s.setReference id (.ofIdent d)

def annotateUndeclared (env : Env) (s : State) (id : Int) (name : String) : Checked State := do
  let s ← s.setType id .error
  return s.reportUndeclared env id name

/-- Types a call of `f` whose receiver, if it has one, and arguments have the ids `args`. -/
def resolveCall (env : Env) (s : State) (id : Int) (f : FunctionDecl) (receiver : Bool)
    (args : List Int) : Checked State := do
  let types := args.map s.typeAt
  let enabled := fun o => !env.options.isDisabled o
  let trial := Trial.all ⟨s.bindings, s.nextVar, none⟩ enabled receiver types f.overloads
  let s := { s with bindings := trial.bindings, nextVar := trial.nextVar }
  match trial.found with
  | some r =>
    let s ← s.setType id r.result
    s.setReference id { name := f.name, overloads := r.overloads }
  | none =>
    let s := s.report id
      (.noMatchingOverload f.name (types.map (s.bindings.subst true)) receiver)
    s.setType id .error

def join (env : Env) (s : State) (id : Int) (previous : Option Ty) (current : Ty) : Ty × State :=
  match previous with
  | none => (current, s)
  | some previous =>
    match s.unify previous current with
    | (true, s) => (previous.mostGeneral current, s)
    | (false, s) =>
      match env.options.policy with
      | .dynamic => (.dyn, s)
      | .homogeneous => (.error, s.report id (.typeMismatch previous current))

def messageType (s : State) (id : Int) (declared : Ty) : Ty × State :=
  match declared with
  | .error => (.error, s)
  | .typeOf (.message m) => (.message m, s)
  | .typeOf t => (.error, s.report id (.notAMessageType t))
  | .type => (.error, s.report id (.notAMessageType .type))
  | t => (.error, s.report id (.notAType t))

def messageLiteral (env : Env) (s : State) (id : Int) (name : String) :
    Checked (String × Ty × State) :=
  match env.lookupIdent? name with
  | none => return (name, .error, s.reportUndeclared env id name)
  | some d => do
    let s ← s.setReference id { name := d.name }
    let (t, s) := messageType s id d.ty
    return (d.name, t, s)

def literalType : Ty → Ty
  | .message m => .ofMessageName m
  | t => t

def initField (env : Env) (s : State) (message : Ty) (id : Int) (field : String) (valueId : Int) :
    State :=
  let actual := s.typeAt valueId
  let (expected, s) :=
    match message with
    | .message m => fieldType env s id m field
    | _ => (.error, s)
  s.require actual expected id (.fieldTypeMismatch field expected actual)

def iterType (s : State) (rangeId : Int) (range : Ty) : Ty × State :=
  match range with
  | .list t => (t, s)
  | .map key _ => (key, s)
  | .dyn => (.dyn, forceDyn s .dyn)
  | .error => (.dyn, forceDyn s .error)
  | .param n => (.dyn, forceDyn s (.param n))
  | t => (.error, s.report rangeId (.notAComprehensionRange t))

mutual
def checkExpr (env : Env) (s : State) : Expr → Checked (Expr × State)
  | .const id v => do
    let s ← s.setType id v.ty
    return (.const id v, s)
  | .ident id name =>
    match env.lookupIdent? name with
    | some d => do
      let s ← annotateIdent s id d
      return (.ident id d.name, s)
    | none => do
      let s ← annotateUndeclared env s id name
      return (.ident id name, s)
  | .select id operand field testOnly =>
    match selectedDecl? env operand field with
    | some d =>
      if testOnly then do
        let s ← (s.report id .notAFieldSelection).setType id .bool
        return (.select id operand field testOnly, s)
      else do
        let s ← annotateIdent s id d
        return (.ident id d.name, s)
    | none => do
      let (operand', s) ← checkExpr env s operand
      let (t, s) := selection env s id (s.subst (s.typeAt operand.id)) field
      let s ← s.setType id (s.subst (if testOnly then .bool else t))
      return (.select id operand' field testOnly, s)
  | .call id f args => do
    let (args', s) ← checkAll env s args
    match env.lookupFunction? f with
    | some d =>
      let s ← resolveCall env s id d false (args.map Expr.id)
      return (.call id d.name args', s)
    | none =>
      let s ← annotateUndeclared env s id f
      return (.call id f args', s)
  | .method id target f args => do
    let (args', s) ← checkAll env s args
    match namespacedFunction? env target f with
    | some d =>
      let s ← resolveCall env s id d false (args.map Expr.id)
      return (.call id d.name args', s)
    | none =>
      let (target', s) ← checkExpr env s target
      match env.lookupFunction? f with
      | some d =>
        let s ← resolveCall env s id d true (target.id :: args.map Expr.id)
        return (.method id target' f args', s)
      | none =>
        let s ← annotateUndeclared env s id f
        return (.method id target' f args', s)
  | .list id elems => do
    let (elems', t, s) ← checkElems env s none elems
    let (t, s) := s.orFresh t
    let s ← s.setType id (.list t)
    return (.list id elems', s)
  | .map id entries => do
    let (entries', k, v, s) ← checkEntries env s none none entries
    let (k, s) := s.orFresh k
    let (v, s) := s.orFresh v
    let s ← s.setType id (.map k v)
    return (.map id entries', s)
  | .message id name fields => do
    let (name', message, s) ← messageLiteral env s id name
    let s ← s.setType id (literalType message)
    let (fields', s) ← checkFields env s message fields
    return (.message id name' fields', s)
  | .fold id iter range accu init condition step result => do
    let (range', s) ← checkExpr env s range
    let (init', s) ← checkExpr env s init
    let accuType := s.typeAt init.id
    let (iterTy, s) := iterType s range.id (s.subst (s.typeAt range.id))
    let accuEnv := env.enter.bind { name := accu, ty := accuType }
    let loopEnv := accuEnv.enter.bind { name := iter, ty := iterTy }
    let (condition', s) ← checkExpr loopEnv s condition
    let s := s.expect condition.id .bool
    let (step', s) ← checkExpr loopEnv s step
    let s := s.expect step.id accuType
    let (result', s) ← checkExpr accuEnv s result
    let s ← s.setType id (s.subst (s.typeAt result.id))
    return (.fold id iter range' accu init' condition' step' result', s)

def checkAll (env : Env) (s : State) : List Expr → Checked (List Expr × State)
  | [] => return ([], s)
  | e :: es => do
    let (e', s) ← checkExpr env s e
    let (es', s) ← checkAll env s es
    return (e' :: es', s)

def checkElems (env : Env) (s : State) (t : Option Ty) :
    List Expr → Checked (List Expr × Option Ty × State)
  | [] => return ([], t, s)
  | e :: es => do
    let (e', s) ← checkExpr env s e
    let (u, s) := join env s e.id t (s.typeAt e.id)
    let (es', t, s) ← checkElems env s (some u) es
    return (e' :: es', t, s)

def checkEntries (env : Env) (s : State) (k v : Option Ty) :
    List Entry → Checked (List Entry × Option Ty × Option Ty × State)
  | [] => return ([], k, v, s)
  | .mk id key value :: es => do
    let (key', s) ← checkExpr env s key
    let (k, s) := join env s key.id k (s.typeAt key.id)
    let (value', s) ← checkExpr env s value
    let (v, s) := join env s value.id v (s.typeAt value.id)
    let (es', k, v, s) ← checkEntries env s (some k) (some v) es
    return (.mk id key' value' :: es', k, v, s)

def checkFields (env : Env) (s : State) (message : Ty) :
    List FieldInit → Checked (List FieldInit × State)
  | [] => return ([], s)
  | .mk id field value :: fs => do
    let (value', s) ← checkExpr env s value
    let s := initField env s message id field value.id
    let (fs', s) ← checkFields env s message fs
    return (.mk id field value' :: fs', s)
end

end Checker

structure CheckResult where
  expr : Expr
  types : Table Int Ty
  references : Table Int Reference
  diagnostics : List Diagnostic

namespace CheckResult

def isOk (r : CheckResult) : Bool := r.diagnostics.isEmpty

def type? (r : CheckResult) : Option Ty := r.types.find? r.expr.id

end CheckResult

/-- Checks an expression. Parameters left open become `dyn` in the types of the result. -/
def check (env : Env) (source : Source) (e : Expr) : Except AnnotatedTwice CheckResult := do
  let (expr, s) ← Checker.checkExpr env {} e
  return { expr, types := s.types.mapValues (s.bindings.subst true), references := s.references,
           diagnostics := s.reports.map fun (id, c) => .located source id c }

end ExprTyping
