import ExprTyping.Ty.Basic

namespace ExprTyping.Ty

def wellKnownMessage? : String → Option Ty
  | "google.protobuf.BoolValue" => some (wrapper .bool)
  | "google.protobuf.BytesValue" => some (wrapper .bytes)
  | "google.protobuf.DoubleValue" => some (wrapper .double)
  | "google.protobuf.FloatValue" => some (wrapper .double)
  | "google.protobuf.Int32Value" => some (wrapper .int)
  | "google.protobuf.Int64Value" => some (wrapper .int)
  | "google.protobuf.StringValue" => some (wrapper .string)
  | "google.protobuf.UInt32Value" => some (wrapper .uint)
  | "google.protobuf.UInt64Value" => some (wrapper .uint)
  | "google.protobuf.Any" => some any
  | "google.protobuf.Duration" => some duration
  | "google.protobuf.Timestamp" => some timestamp
  | "google.protobuf.ListValue" => some (list dyn)
  | "google.protobuf.Struct" => some (map string dyn)
  | "google.protobuf.Value" => some dyn
  | "google.protobuf.NullValue" => some null
  | _ => none

def ofMessageName (name : String) : Ty := (wellKnownMessage? name).getD (message name)

mutual
def normalize : Ty → Ty
  | message n => ofMessageName n
  | list t => list t.normalize
  | map k v => map k.normalize v.normalize
  | typeOf t => typeOf t.normalize
  | abstract n ts => abstract n (normalizeAll ts)
  | function r ts => function r.normalize (normalizeAll ts)
  | t => t

def normalizeAll : List Ty → List Ty
  | [] => []
  | t :: ts => t.normalize :: normalizeAll ts
end

end ExprTyping.Ty
