import ExprTyping.Ty.Text
import ExprTyping.Ty.WellKnown
import ExprTyping.Value

namespace ExprTyping

def Value.sameOption : Option Value → Option Value → Bool
  | none, none => true
  | some v, some w => v.same w
  | _, _ => false

structure IdentDecl where
  name : String
  ty : Ty
  value : Option Value := none

namespace IdentDecl

def same (d e : IdentDecl) : Bool :=
  d.name == e.name && d.ty == e.ty && Value.sameOption d.value e.value

def normalize (d : IdentDecl) : IdentDecl := { d with ty := d.ty.normalize }

end IdentDecl

/-- One callable signature. Its type parameters are its own: each call takes fresh ones. -/
structure Overload where
  id : String
  params : List Ty
  result : Ty
  receiver : Bool := false
  typeParams : List String := []
  deriving DecidableEq

namespace Overload

def isParametric (o : Overload) : Bool := !o.typeParams.isEmpty

def ty (o : Overload) : Ty := .function o.result o.params

def receiverTy? (o : Overload) : Option Ty := if o.receiver then o.params.head? else none

def normalize (o : Overload) : Overload :=
  { o with params := Ty.normalizeAll o.params, result := o.result.normalize }

end Overload

structure FunctionDecl where
  name : String
  overloads : List Overload := []
  deriving DecidableEq

def FunctionDecl.overload? (f : FunctionDecl) (id : String) : Option Overload :=
  f.overloads.find? (·.id == id)

inductive Decl
  | ident (d : IdentDecl)
  | function (f : FunctionDecl)

def Decl.name : Decl → String
  | ident d => d.name
  | function f => f.name

end ExprTyping
