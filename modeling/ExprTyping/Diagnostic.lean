import ExprTyping.Source
import ExprTyping.Ty.Text

namespace ExprTyping

inductive Cause
  | undeclaredReference (container name : String)
  /-- A presence test of a name that is declared as a whole. -/
  | notAFieldSelection
  | fieldSelectionUnsupported (t : Ty)
  | undefinedField (field : String)
  | noMatchingOverload (function : String) (args : List Ty) (receiver : Bool)
  | typeMismatch (expected actual : Ty)
  | notAType (t : Ty)
  | notAMessageType (t : Ty)
  | notAComprehensionRange (t : Ty)
  | fieldTypeMismatch (field : String) (expected actual : Ty)
  | unexpectedFailedResolution (name : String)
  deriving DecidableEq, Repr

def Cause.message : Cause → String
  | undeclaredReference c n =>
    "undeclared reference to '" ++ n ++ "' (in container '" ++ c ++ "')"
  | notAFieldSelection => "expression does not select a field"
  | fieldSelectionUnsupported t => "type '" ++ t.text ++ "' does not support field selection"
  | undefinedField f => "undefined field '" ++ f ++ "'"
  | noMatchingOverload f ts r =>
    "found no matching overload for '" ++ f ++ "' applied to '" ++ Ty.signatureText none ts r ++ "'"
  | typeMismatch e a => "expected type '" ++ e.text ++ "' but found '" ++ a.text ++ "'"
  | notAType t => "'" ++ t.text ++ "' is not a type"
  | notAMessageType t => "'" ++ t.text ++ "' is not a message type"
  | notAComprehensionRange t =>
    "expression of type '" ++ t.text ++
      "' cannot be range of a comprehension (must be list, map, or dynamic)"
  | fieldTypeMismatch f e a =>
    "expected type of field '" ++ f ++ "' is '" ++ e.text ++ "' but provided type is '" ++ a.text ++
      "'"
  | unexpectedFailedResolution n => "[internal] unexpected failed resolution of '" ++ n ++ "'"

structure Diagnostic where
  id : Int
  cause : Cause
  location : Option Location
  deriving DecidableEq, Repr

namespace Diagnostic

def located (source : Source) (id : Int) (cause : Cause) : Diagnostic :=
  ⟨id, cause, source.location? id⟩

def message (d : Diagnostic) : String := d.cause.message

def text (d : Diagnostic) : String :=
  match d.location with
  | some l => l.text ++ ": " ++ d.message
  | none => d.message

def reportLine (description : String) (d : Diagnostic) : String :=
  match d.location with
  | some l => "ERROR: " ++ description ++ ":" ++ l.text ++ ": " ++ d.message
  | none => "ERROR: " ++ description ++ ": " ++ d.message

def report (description : String) (ds : List Diagnostic) : String :=
  "\n".intercalate (ds.map (reportLine description))

end Diagnostic

end ExprTyping
