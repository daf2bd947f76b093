import ExprTyping.Decl
import ExprTyping.Table

namespace ExprTyping

structure Group where
  idents : Table String IdentDecl := {}
  functions : Table String FunctionDecl := {}
  ident_name : ∀ n d, idents.find? n = some d → d.name = n := by
    first
      | exact Table.forall_find?_empty
      | exact Table.forall_find?_insert _ Table.forall_find?_empty rfl
  function_name : ∀ n f, functions.find? n = some f → f.name = n := by
    first
      | exact Table.forall_find?_empty
      | exact Table.forall_find?_insert _ Table.forall_find?_empty rfl

namespace Group

def empty : Group := {}

@[simp] theorem idents_empty : empty.idents = {} := rfl

@[simp] theorem functions_empty : empty.functions = {} := rfl

end Group

structure Scopes where
  inner : Group := .empty
  outer : List Group := []

namespace Scopes

def groups (s : Scopes) : List Group := s.inner :: s.outer

def depth (s : Scopes) : Nat := s.outer.length + 1

def push (s : Scopes) : Scopes := ⟨.empty, s.groups⟩

/-- The chain without its innermost group; the outermost group stays. -/
def pop? (s : Scopes) : Option Scopes :=
  match s.outer with
  | [] => none
  | g :: gs => some ⟨g, gs⟩

def addIdent (s : Scopes) (d : IdentDecl) : Scopes :=
  { s with
    inner := { s.inner with
      idents := s.inner.idents.insert d.name d
      ident_name := s.inner.idents.forall_find?_insert s.inner.ident_name rfl } }

def setFunction (s : Scopes) (f : FunctionDecl) : Scopes :=
  { s with
    inner := { s.inner with
      functions := s.inner.functions.insert f.name f
      function_name := s.inner.functions.forall_find?_insert s.inner.function_name rfl } }

def findIdent? (s : Scopes) (name : String) : Option IdentDecl :=
  s.groups.findSome? (·.idents.find? name)

def findInnerIdent? (s : Scopes) (name : String) : Option IdentDecl := s.inner.idents.find? name

def findFunction? (s : Scopes) (name : String) : Option FunctionDecl :=
  s.groups.findSome? (·.functions.find? name)

def install (s : Scopes) (ds : List Decl) : Scopes :=
  ds.foldl
    (fun s d =>
      match d with
      | .ident d => s.addIdent d
      | .function f => s.setFunction f)
    s

theorem name_of_findIdent? {s : Scopes} {name : String} {d : IdentDecl}
    (h : s.findIdent? name = some d) : d.name = name := by
  obtain ⟨g, -, hg⟩ := List.exists_of_findSome?_eq_some h
  exact g.ident_name name d hg

theorem name_of_findFunction? {s : Scopes} {name : String} {f : FunctionDecl}
    (h : s.findFunction? name = some f) : f.name = name := by
  obtain ⟨g, -, hg⟩ := List.exists_of_findSome?_eq_some h
  exact g.function_name name f hg

@[simp] theorem pop?_push (s : Scopes) : s.push.pop? = some s := rfl

@[simp] theorem depth_push (s : Scopes) : s.push.depth = s.depth + 1 := rfl

end Scopes

end ExprTyping
