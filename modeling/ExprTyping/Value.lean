import ExprTyping.Decimal.Layout
import ExprTyping.Text.Octal
import ExprTyping.Text.Quoted
import ExprTyping.Text.Utf8
import ExprTyping.Ty.Basic

namespace ExprTyping

inductive Value
  | null
  | bool (b : Bool)
  | int (n : Int64)
  | uint (n : UInt64)
  | double (x : Double)
  | string (s : String)
  | bytes (bs : List UInt8)
  deriving DecidableEq, Repr

namespace Value

def ty : Value → Ty
  | null => .null
  | bool _ => .bool
  | int _ => .int
  | uint _ => .uint
  | double _ => .double
  | string _ => .string
  | bytes _ => .bytes

def same : Value → Value → Bool
  | double x, double y => x.same y
  | v, w => v == w

def textLayout : Layout := ⟨true, some (-4), some 15⟩

def literalLayout : Layout := ⟨false, none, none⟩

def boolText (b : Bool) : String := if b then "true" else "false"

def text : Value → String
  | null => "null"
  | bool b => boolText b
  | int n => toString n.toInt
  | uint n => toString n.toNat ++ "u"
  | double x => textLayout.write x
  | string s => Text.Quoted.quote s
  | bytes bs => "b\"" ++ String.ofList (Text.Octal.escapeAll bs) ++ "\""

def literal : Value → String
  | null => "null"
  | bool b => boolText b
  | int n => toString n.toInt
  | uint n => toString n.toNat ++ "u"
  | double x => literalLayout.write x
  | string s => Text.Quoted.quote s
  | bytes bs => "b\"" ++ Text.Utf8.decodeLossy bs ++ "\""

end Value

end ExprTyping
