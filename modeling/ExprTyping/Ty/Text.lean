import ExprTyping.Ty.Basic

namespace ExprTyping

def Prim.text : Prim → String
  | .bool => "bool"
  | .int => "int"
  | .uint => "uint"
  | .double => "double"
  | .string => "string"
  | .bytes => "bytes"

def WellKnown.text : WellKnown → String
  | .any => "any"
  | .timestamp => "timestamp"
  | .duration => "duration"

namespace Ty

def tupleText (ts : List String) : String := "(" ++ ", ".intercalate ts ++ ")"

mutual
def text : Ty → String
  | prim p => p.text
  | wellKnown w => w.text
  | null => "null"
  | dyn => "dyn"
  | error => "!error!"
  | type => "type"
  | typeOf t => "type(" ++ t.text ++ ")"
  | wrapper p => "wrapper(" ++ p.text ++ ")"
  | list t => "list(" ++ t.text ++ ")"
  | map k v => "map(" ++ k.text ++ ", " ++ v.text ++ ")"
  | message n => n
  | abstract n [] => n
  | abstract n (t :: ts) => n ++ tupleText (t.text :: textAll ts)
  | function r ts => tupleText (textAll ts) ++ " -> " ++ r.text
  | param n => n

def textAll : List Ty → List String
  | [] => []
  | t :: ts => t.text :: textAll ts
end

def signatureText (result : Option Ty) (args : List Ty) (receiver : Bool) : String :=
  let call :=
    match receiver, args with
    | true, t :: ts => t.text ++ "." ++ tupleText (textAll ts)
    | _, ts => tupleText (textAll ts)
  match result with
  | some r => call ++ " -> " ++ r.text
  | none => call

@[simp] theorem signatureText_function (r : Ty) (ts : List Ty) :
    signatureText (some r) ts false = (function r ts).text := by
  simp [signatureText, text]

end Ty

end ExprTyping
