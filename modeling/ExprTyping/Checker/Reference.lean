import ExprTyping.Decl

namespace ExprTyping

structure Reference where
  name : String
  overloads : List String := []
  value : Option Value := none

namespace Reference

def isFunction (r : Reference) : Bool := !r.overloads.isEmpty

def same (r s : Reference) : Bool :=
  r.name == s.name && r.overloads == s.overloads && Value.sameOption r.value s.value

def ofIdent (d : IdentDecl) : Reference := { name := d.name, value := d.value }

def text (r : Reference) : String :=
  if r.isFunction then "|".intercalate (r.overloads.mergeSort fun x y => decide (x ≤ y)) else r.name

end Reference

end ExprTyping
