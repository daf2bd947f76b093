import ExprTyping.Bindings.Assign
import ExprTyping.Env.Basic

namespace ExprTyping

inductive Conflict
  | identifier (name : String)
  | overload (function id signature existingId existingSignature : String)
  | reservedMacro (function : String) (argCount : Nat)
  deriving DecidableEq, Repr

namespace Conflict

def message : Conflict → String
  | identifier n => "overlapping identifier for name '" ++ n ++ "'"
  | overload f i s j t =>
    "overlapping overload for name '" ++ f ++ "' (type '" ++ s ++ "' with overloadId: '" ++ i ++
      "' cannot be distinguished from '" ++ t ++ "' with overloadId: '" ++ j ++ "')"
  | reservedMacro f n =>
    "overlapping macro for name '" ++ f ++ "' with " ++ toString n ++ " args"

def messageAll (cs : List Conflict) : String := "\n".intercalate (cs.map message)

end Conflict

/-- A call form that is expanded before checking. The count includes the receiver. -/
structure CallForm where
  name : String
  argCount : Nat
  receiver : Bool
  deriving DecidableEq, Repr

def macroForms : List CallForm :=
  [⟨"has", 1, false⟩, ⟨"all", 3, true⟩, ⟨"exists", 3, true⟩, ⟨"exists_one", 3, true⟩,
   ⟨"map", 3, true⟩, ⟨"map", 4, true⟩, ⟨"filter", 3, true⟩]

namespace Overload

def erased (o : Overload) : Ty := Bindings.subst {} true o.ty

def overlaps (o existing : Overload) : Bool :=
  existing.id == o.id ||
    (existing.receiver == o.receiver &&
      (Bindings.assign? {} o.erased existing.erased).isSome &&
      (Bindings.assign? {} existing.erased o.erased).isSome)

def isMacro (o : Overload) (function : String) (form : CallForm) : Bool :=
  form.name == function && form.receiver == o.receiver && form.argCount == o.params.length

end Overload

namespace FunctionDecl

def conflicts (f : FunctionDecl) (o : Overload) : List Conflict :=
  ((f.overloads.filter o.overlaps).map fun e =>
      Conflict.overload f.name o.id o.ty.text e.id e.ty.text) ++
    ((macroForms.filter (o.isMacro f.name)).map fun m => Conflict.reservedMacro f.name m.argCount)

def addOverload (f : FunctionDecl) (o : Overload) : FunctionDecl × List Conflict :=
  if f.overloads.contains o then (f, [])
  else
    match f.conflicts o with
    | [] => ({ f with overloads := f.overloads ++ [o] }, [])
    | cs => (f, cs)

def addOverloads (f : FunctionDecl) : List Overload → FunctionDecl × List Conflict
  | [] => (f, [])
  | o :: os =>
    let (f, cs) := f.addOverload o
    let (f, ds) := f.addOverloads os
    (f, cs ++ ds)

end FunctionDecl

namespace Scopes

/-- Adds a normalized declaration. A function is found in any scope and written to the innermost. -/
def add (s : Scopes) : Decl → Scopes × List Conflict
  | .ident d =>
    let d := d.normalize
    match s.findInnerIdent? d.name with
    | some e => (s, if e.same d then [] else [.identifier d.name])
    | none => (s.addIdent d, [])
  | .function f =>
    let current := (s.findFunction? f.name).getD { name := f.name }
    let (current, cs) := current.addOverloads (f.overloads.map Overload.normalize)
    (s.setFunction current, cs)

def addAll (s : Scopes) : List Decl → Scopes × List Conflict
  | [] => (s, [])
  | d :: ds =>
    let (s, cs) := s.add d
    let (s, es) := s.addAll ds
    (s, cs ++ es)

end Scopes

namespace Env

/-- The environment after declarations were given to its innermost scope, and every conflict. The
scopes are replaced only if there is none. -/
def addAll (env : Env) (ds : List Decl) : Env × List Conflict :=
  match env.scopes.addAll ds with
  | (scopes, []) => ({ env with scopes }, [])
  | (_, cs) => (env, cs)

def add (env : Env) (ds : List Decl) : Except (List Conflict) Env :=
  match env.addAll ds with
  | (env, []) => .ok env
  | (_, cs) => .error cs

end Env

end ExprTyping
