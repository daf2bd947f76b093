import ExprTyping.Checker.Rules
import ExprTyping.Expr.Text

namespace ExprTyping.CheckResult

def typeText (r : CheckResult) (id : Int) : String :=
  match r.types.find? id with
  | some t => "~" ++ t.text
  | none => ""

def referenceText (r : CheckResult) (id : Int) : String :=
  match r.references.find? id with
  | some ref => "^" ++ ref.text
  | none => ""

def adornment (r : CheckResult) : Expr → String
  | .ident i _ => r.typeText i ++ r.referenceText i
  | .select i _ _ _ => r.typeText i ++ r.referenceText i
  | .call i _ _ => r.typeText i ++ r.referenceText i
  | .method i _ _ _ => r.typeText i ++ r.referenceText i
  | .message i _ _ => r.typeText i ++ r.referenceText i
  | e => r.typeText e.id

def adorned (r : CheckResult) : String := r.expr.textWith r.adornment

end ExprTyping.CheckResult
