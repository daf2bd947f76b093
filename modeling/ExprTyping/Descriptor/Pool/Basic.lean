import ExprTyping.Descriptor.Names
import ExprTyping.Provider.Basic
import ExprTyping.Table
import ExprTyping.Ty.WellKnown

/-!
# Descriptor pools

A pool stands for a library of its own that loads files of message and enum declarations. It only
serves to make a provider out of such files, for programs that check expressions against them. The
theory is about providers of any kind: no definition of the checker and no result rests on a pool.
-/

namespace ExprTyping.Descriptor

inductive FieldKind
  | scalar (s : Scalar)
  | message (name : String)
  | enum (name : String)

structure Field where
  name : String
  number : Int
  kind : FieldKind
  repeated : Bool

structure Message where
  name : String
  fields : List Field
  plan : NumberPlan
  isMapEntry : Bool

structure Enum where
  name : String
  values : Table String Int

structure Extension where
  name : String
  extendee : String
  field : Field

structure Pool where
  files : Table String (List String) := {}
  names : Table String Named := {}
  messages : Table String Message := {}
  enums : Table String Enum := {}
  extensions : Table String Extension := {}

def Scalar.ty : Scalar → Ty
  | .double | .float => .double
  | .int64 | .int32 | .sfixed32 | .sfixed64 | .sint32 | .sint64 => .int
  | .uint64 | .fixed64 | .fixed32 | .uint32 => .uint
  | .bool => .bool
  | .string => .string
  | .bytes => .bytes

namespace Pool

def stripDot (name : String) : String := (Text.Dotted.rooted? name).getD name

def message? (p : Pool) (name : String) : Option Message := p.messages.find? (stripDot name)

def kindTy : FieldKind → Ty
  | .scalar s => s.ty
  | .message n => Ty.ofMessageName n
  | .enum n => if n = "google.protobuf.NullValue" then .null else .int

def numberTy (m : Message) (number : Int) : Ty :=
  match m.fields.find? (·.number == number) with
  | some f => kindTy f.kind
  | none => .dyn

def fieldTy (p : Pool) (f : Field) : Ty :=
  if f.repeated then
    match f.kind with
    | .message n =>
      match p.messages.find? n with
      | some m =>
        if m.isMapEntry then .map (numberTy m 1) (numberTy m 2) else .list (kindTy f.kind)
      | none => .list (kindTy f.kind)
    | k => .list (kindTy k)
  else kindTy f.kind

def enumValue? (p : Pool) (name : String) : Option Int := do
  let (enum, value) ← Text.Dotted.splitLast? name
  let e ← p.enums.find? (stripDot enum)
  e.values.find? value

def provider (p : Pool) : Provider where
  message? name := (p.message? name).map fun m => .message m.name
  field? message field := do
    let m ← p.message? message
    let f ← m.fields.find? (·.name == field)
    return p.fieldTy f
  enumValue? name := (p.enumValue? name).map Int64.ofInt

end Pool

end ExprTyping.Descriptor
