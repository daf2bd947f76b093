import ExprTyping.Value

namespace ExprTyping

mutual
inductive Expr
  | const (id : Int) (value : Value)
  | ident (id : Int) (name : String)
  | select (id : Int) (operand : Expr) (field : String) (testOnly : Bool)
  | call (id : Int) (function : String) (args : List Expr)
  | method (id : Int) (target : Expr) (function : String) (args : List Expr)
  | list (id : Int) (elems : List Expr)
  | message (id : Int) (name : String) (fields : List FieldInit)
  | map (id : Int) (entries : List Entry)
  /-- A fold over `range`: `accu` starts as `init`, and while `condition` holds it becomes `step`
  for each element `iter`; the value is `result`. -/
  | fold (id : Int) (iter : String) (range : Expr) (accu : String)
      (init condition step result : Expr)

inductive FieldInit
  | mk (id : Int) (field : String) (value : Expr)

inductive Entry
  | mk (id : Int) (key value : Expr)
end

namespace Expr

def id : Expr → Int
  | const i _ => i
  | ident i _ => i
  | select i _ _ _ => i
  | call i _ _ => i
  | method i _ _ _ => i
  | list i _ => i
  | message i _ _ => i
  | map i _ => i
  | fold i _ _ _ _ _ _ _ => i

def qualifiedName? : Expr → Option String
  | ident _ name => some name
  | select _ operand field false => operand.qualifiedName?.map fun p => p ++ "." ++ field
  | _ => none

mutual
def walk : Expr → List Int
  | const i _ => [i]
  | ident i _ => [i]
  | select i operand _ _ => i :: operand.walk
  | call i _ args => i :: walkAll args
  | method i target _ args => i :: (target.walk ++ walkAll args)
  | list i elems => i :: walkAll elems
  | message i _ fields => i :: walkFields fields
  | map i entries => i :: walkEntries entries
  | fold i _ range _ init condition step result =>
    i :: (range.walk ++ init.walk ++ condition.walk ++ step.walk ++ result.walk)

def walkAll : List Expr → List Int
  | [] => []
  | e :: es => e.walk ++ walkAll es

def walkFields : List FieldInit → List Int
  | [] => []
  | .mk _ _ value :: fs => value.walk ++ walkFields fs

def walkEntries : List Entry → List Int
  | [] => []
  | .mk _ key value :: es => key.walk ++ value.walk ++ walkEntries es
end

end Expr

end ExprTyping
