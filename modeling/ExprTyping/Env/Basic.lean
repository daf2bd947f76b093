import ExprTyping.Container
import ExprTyping.Provider.Basic
import ExprTyping.Scopes

namespace ExprTyping

inductive LiteralPolicy
  | dynamic
  | homogeneous
  deriving DecidableEq, Repr

structure Options where
  policy : LiteralPolicy := .dynamic
  /-- The ids of the overloads that no call resolves to, in increasing order. -/
  disabled : List String := []
  deriving DecidableEq, Repr

def insertName (name : String) : List String → List String
  | [] => [name]
  | n :: ns =>
    if n = name then n :: ns
    else if name < n then name :: n :: ns
    else n :: insertName name ns

namespace Options

def disable (o : Options) (ids : List String) : Options :=
  { o with disabled := ids.foldl (fun ds i => insertName i ds) o.disabled }

def isDisabled (o : Options) (id : String) : Bool := o.disabled.contains id

end Options

structure Env where
  container : Container
  provider : Provider
  scopes : Scopes := {}
  options : Options := {}

namespace Env

def promoted? (env : Env) (name : String) : Option IdentDecl :=
  match env.provider.message? name with
  | some t => some { name, ty := .typeOf t }
  | none =>
    (env.provider.enumValue? name).map fun n => { name, ty := .int, value := some (.int n) }

def lookupCandidate? (env : Env) (candidate : String) : Option IdentDecl :=
  match env.scopes.findIdent? candidate with
  | some d => some d
  | none => env.promoted? candidate

def lookupIdent? (env : Env) (name : String) : Option IdentDecl :=
  (env.container.candidates name).findSome? env.lookupCandidate?

def lookupFunction? (env : Env) (name : String) : Option FunctionDecl :=
  (env.container.candidates name).findSome? env.scopes.findFunction?

def enter (env : Env) : Env := { env with scopes := env.scopes.push }

def exit (env : Env) : Env := { env with scopes := env.scopes.pop?.getD env.scopes }

def bind (env : Env) (d : IdentDecl) : Env := { env with scopes := env.scopes.addIdent d }

def homogeneous (env : Env) : Env :=
  { env with options := { env.options with policy := .homogeneous } }

def disable (env : Env) (ids : List String) : Env :=
  { env with options := env.options.disable ids }

end Env

end ExprTyping
