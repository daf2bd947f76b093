import ExprTyping.Descriptor.Numbers
import ExprTyping.Descriptor.Setting
import ExprTyping.Text.Dotted

namespace ExprTyping.Descriptor

inductive Scalar
  | double | float | int64 | uint64 | int32 | fixed64 | fixed32 | bool | string | bytes | uint32
  | sfixed32 | sfixed64 | sint32 | sint64
  deriving DecidableEq, Repr

inductive FieldType
  | scalar (s : Scalar)
  | group
  | message
  | enum
  deriving DecidableEq, Repr

/-- A field of a message, or an extension, which names the message that it extends. What names such
a message is marked as an extension, wherever it stands. -/
structure FieldDecl where
  name : String := ""
  number : Int := 0
  type : FieldType := .scalar .double
  typeName : Option String := none
  repeated : Bool := false
  extendee : Option String := none
  default : Option String := none
  oneofIndex : Option Int := none
  jsonName : Option String := none
  settings : Settings := {}

structure EnumValueDecl where
  name : String := ""
  number : Int := 0
  settings : Settings := {}

structure EnumDecl where
  name : String := ""
  values : List EnumValueDecl := []
  reserved : List NumberRange := []
  settings : Settings := {}

structure OneofDecl where
  name : String := ""
  settings : Settings := {}

structure ExtensionRange where
  numbers : NumberRange := {}
  settings : Settings := {}

structure MessageDecl where
  name : String := ""
  nested : List MessageDecl := []
  fields : List FieldDecl := []
  enums : List EnumDecl := []
  oneofs : List OneofDecl := []
  extensions : List FieldDecl := []
  extensionRanges : List ExtensionRange := []
  reserved : List NumberRange := []
  settings : Settings := {}

structure MethodDecl where
  name : String := ""
  input : String := ""
  output : String := ""
  settings : Settings := {}

structure ServiceDecl where
  name : String := ""
  methods : List MethodDecl := []
  settings : Settings := {}

structure FileDecl where
  name : String := ""
  package : String := ""
  dialect : Option String := none
  imports : List String := []
  publicImports : List Int := []
  weakImports : List Int := []
  messages : List MessageDecl := []
  enums : List EnumDecl := []
  services : List ServiceDecl := []
  extensions : List FieldDecl := []
  settings : Settings := {}

def FieldDecl.isExtension (f : FieldDecl) : Bool := f.extendee.isSome

def MessageDecl.plan (m : MessageDecl) : NumberPlan where
  reserved := m.reserved
  forExtensions := m.extensionRanges.map ExtensionRange.numbers

def qualify (scope name : String) : String :=
  if scope = "" then name else Text.Dotted.join scope name

structure MessageDef where
  name : String
  decl : MessageDecl

structure EnumDef where
  scope : String
  decl : EnumDecl

def EnumDef.name (e : EnumDef) : String := qualify e.scope e.decl.name

structure ExtensionDef where
  scope : String
  decl : FieldDecl

def ExtensionDef.name (e : ExtensionDef) : String := qualify e.scope e.decl.name

mutual
def MessageDecl.messageDefs (scope : String) : MessageDecl → List MessageDef
  | m@(.mk name nested _ _ _ _ _ _ _) =>
    ⟨qualify scope name, m⟩ :: MessageDecl.messageDefsAll (qualify scope name) nested

def MessageDecl.messageDefsAll (scope : String) : List MessageDecl → List MessageDef
  | [] => []
  | m :: ms => m.messageDefs scope ++ MessageDecl.messageDefsAll scope ms
end

def MessageDef.enumDefs (m : MessageDef) : List EnumDef := m.decl.enums.map (EnumDef.mk m.name)

def MessageDef.extensionDefs (m : MessageDef) : List ExtensionDef :=
  m.decl.extensions.map (ExtensionDef.mk m.name)

namespace FileDecl

def messageDefs (f : FileDecl) : List MessageDef := MessageDecl.messageDefsAll f.package f.messages

def enumDefs (f : FileDecl) : List EnumDef :=
  f.enums.map (EnumDef.mk f.package) ++ f.messageDefs.flatMap MessageDef.enumDefs

def extensionDefs (f : FileDecl) : List ExtensionDef :=
  f.extensions.map (ExtensionDef.mk f.package) ++ f.messageDefs.flatMap MessageDef.extensionDefs

def packages (f : FileDecl) : List String :=
  if f.package = "" then [] else Text.Dotted.packages f.package

/-- Files are written in the older dialect unless they say otherwise. -/
def isProto3? (f : FileDecl) : Option Bool :=
  match f.dialect with
  | none => some false
  | some "proto2" => some false
  | some "proto3" => some true
  | some _ => none

def passedOn (f : FileDecl) : List String := f.publicImports.filterMap (f.imports[·.toNat]?)

end FileDecl

end ExprTyping.Descriptor
