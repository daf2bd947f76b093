import ExprTyping.Provider.Basic
import ExprTyping.Table
import ExprTyping.Text.Dotted

namespace ExprTyping

structure Catalog where
  messages : Table String (Table String Ty) := {}
  enumValues : Table String Int64 := {}

namespace Catalog

/-- Registers a message; a name registered again gains the further fields. -/
def addMessage (c : Catalog) (name : String) (fields : List (String × Ty)) : Catalog :=
  let known := (c.messages.find? name).getD {}
  { c with messages := c.messages.insert name (known.insertAll fields) }

def addEnum (c : Catalog) (name : String) (values : List (String × Int64)) : Catalog :=
  { c with
    enumValues := c.enumValues.insertAll (values.map fun v => (Text.Dotted.join name v.1, v.2)) }

def wellKnownMessages : List (String × List (String × Ty)) :=
  [("google.protobuf.BoolValue", [("value", .bool)]),
   ("google.protobuf.BytesValue", [("value", .bytes)]),
   ("google.protobuf.DoubleValue", [("value", .double)]),
   ("google.protobuf.FloatValue", [("value", .double)]),
   ("google.protobuf.Int32Value", [("value", .int)]),
   ("google.protobuf.Int64Value", [("value", .int)]),
   ("google.protobuf.StringValue", [("value", .string)]),
   ("google.protobuf.UInt32Value", [("value", .uint)]),
   ("google.protobuf.UInt64Value", [("value", .uint)]),
   ("google.protobuf.Duration", [("seconds", .int), ("nanos", .int)]),
   ("google.protobuf.Timestamp", [("seconds", .int), ("nanos", .int)]),
   ("google.protobuf.Any", [("type_url", .string), ("value", .bytes)]),
   ("google.protobuf.Struct", [("fields", .map .string .dyn)]),
   ("google.protobuf.ListValue", [("values", .list .dyn)]),
   ("google.protobuf.Value",
    [("null_value", .null), ("number_value", .double), ("string_value", .string),
     ("bool_value", .bool), ("struct_value", .map .string .dyn), ("list_value", .list .dyn)])]

def addWellKnown (c : Catalog) : Catalog :=
  (wellKnownMessages.foldl (fun c m => c.addMessage m.1 m.2) c).addEnum "google.protobuf.NullValue"
    [("NULL_VALUE", 0)]

def provider (c : Catalog) : Provider where
  message? name := if c.messages.contains name then some (.message name) else none
  field? message field := (c.messages.find? message).bind (·.find? field)
  enumValue? name := c.enumValues.find? name

end Catalog

end ExprTyping
