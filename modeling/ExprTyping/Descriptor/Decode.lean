import ExprTyping.Descriptor.Schema
import ExprTyping.Descriptor.WellKnownFiles
import ExprTyping.Descriptor.Wire
import ExprTyping.Text.Utf8

namespace ExprTyping.Descriptor

mutual
inductive Datum
  | number (n : Nat)
  | numbers (ns : List Nat)
  | text (s : String)
  | bytes (bs : List UInt8)
  | record (r : Record)
  | decimal

inductive Record
  | nil
  | cons (number : Nat) (datum : Datum) (rest : Record)
end

def datum? (part : Part → List UInt8 → Option Record) : Shape → Wire.Payload → Option Datum
  | .number, .varint n => some (.number n)
  | .numbers, .varint n => some (.numbers [n])
  | .numbers, .bytes bs => (Wire.packed bs).map .numbers
  | .fixed64, .fixed64 => some .decimal
  | .text, .bytes bs => (Text.Utf8.decode? bs).map .text
  | .bytes, .bytes bs => some (.bytes bs)
  | .part p, .bytes bs => (part p bs).map .record
  | _, _ => none

def record? (part : Part → List UInt8 → Option Record) (p : Part) : List Wire.Token → Option Record
  | [] => some .nil
  | t :: ts => do
    let shape ← p.shape? t.number
    let d ← datum? part shape t.payload
    return .cons t.number d (← record? part p ts)

def part? : Nat → Part → List UInt8 → Option Record
  | depth, p, bs => do
    let tokens ← Wire.tokens bs
    let fields ← Wire.known (fun n => (p.shape? n).isSome) depth [] tokens
    record? (fun q qs => match depth with | 0 => none | d + 1 => part? d q qs) p fields

def nestingLimit : Nat := 100

def signed32 (n : Nat) : Int := Int.bmod n 0x100000000

def signed64 (n : Nat) : Int := Int.bmod n 0x10000000000000000

def FieldType.ofNumber : Int → FieldType
  | 1 => .scalar .double
  | 2 => .scalar .float
  | 3 => .scalar .int64
  | 4 => .scalar .uint64
  | 5 => .scalar .int32
  | 6 => .scalar .fixed64
  | 7 => .scalar .fixed32
  | 8 => .scalar .bool
  | 9 => .scalar .string
  | 10 => .group
  | 11 => .message
  | 12 => .scalar .bytes
  | 13 => .scalar .uint32
  | 14 => .enum
  | 15 => .scalar .sfixed32
  | 16 => .scalar .sfixed64
  | 17 => .scalar .sint32
  | 18 => .scalar .sint64
  | _ => .scalar .double

namespace Record

def toStep (s : OptionStep) : Record → OptionStep
  | .nil => s
  | .cons 1 (.text t) rest => toStep { s with name := t } rest
  | .cons 2 (.number n) rest => toStep { s with isExtension := n != 0 } rest
  | .cons _ _ rest => toStep s rest

def toSetting (s : Setting) : Record → Setting
  | .nil => s
  | .cons 2 (.record r) rest => toSetting { s with steps := s.steps ++ [toStep {} r] } rest
  | .cons 3 (.text t) rest => toSetting { s with word := some t } rest
  | .cons 4 (.number n) rest => toSetting { s with positive := some n } rest
  | .cons 5 (.number n) rest => toSetting { s with negative := some (signed64 n) } rest
  | .cons 6 .decimal rest => toSetting { s with hasDecimal := true } rest
  | .cons 7 (.bytes bs) rest => toSetting { s with text := some bs } rest
  | .cons _ _ rest => toSetting s rest

def toSettings (s : Settings) : Record → Settings
  | .nil => s
  | .cons 999 (.record r) rest => toSettings { s with named := s.named ++ [toSetting {} r] } rest
  | .cons number (.number n) rest => toSettings (s.give [number] n) rest
  | .cons number _ rest => toSettings (s.give [number] 0) rest

def toField (f : FieldDecl) : Record → FieldDecl
  | .nil => f
  | .cons 1 (.text s) rest => toField { f with name := s } rest
  | .cons 2 (.text s) rest => toField { f with extendee := some s } rest
  | .cons 3 (.number n) rest => toField { f with number := signed32 n } rest
  | .cons 4 (.number n) rest => toField { f with repeated := signed32 n == 3 } rest
  | .cons 5 (.number n) rest => toField { f with type := FieldType.ofNumber (signed32 n) } rest
  | .cons 6 (.text s) rest => toField { f with typeName := some s } rest
  | .cons 7 (.text s) rest => toField { f with default := some s } rest
  | .cons 8 (.record r) rest => toField { f with settings := toSettings f.settings r } rest
  | .cons 9 (.number n) rest => toField { f with oneofIndex := some (signed32 n) } rest
  | .cons 10 (.text s) rest => toField { f with jsonName := some s } rest
  | .cons _ _ rest => toField f rest

def toRange (r : NumberRange) : Record → NumberRange
  | .nil => r
  | .cons 1 (.number n) rest => toRange { r with first := signed32 n } rest
  | .cons 2 (.number n) rest => toRange { r with last := signed32 n } rest
  | .cons _ _ rest => toRange r rest

def toExtensionRange (e : ExtensionRange) : Record → ExtensionRange
  | .nil => e
  | .cons 1 (.number n) rest =>
    toExtensionRange { e with numbers := { e.numbers with first := signed32 n } } rest
  | .cons 2 (.number n) rest =>
    toExtensionRange { e with numbers := { e.numbers with last := signed32 n } } rest
  | .cons 3 (.record r) rest =>
    toExtensionRange { e with settings := toSettings e.settings r } rest
  | .cons _ _ rest => toExtensionRange e rest

def toOneof (o : OneofDecl) : Record → OneofDecl
  | .nil => o
  | .cons 1 (.text s) rest => toOneof { o with name := s } rest
  | .cons 2 (.record r) rest => toOneof { o with settings := toSettings o.settings r } rest
  | .cons _ _ rest => toOneof o rest

def toEnumValue (v : EnumValueDecl) : Record → EnumValueDecl
  | .nil => v
  | .cons 1 (.text s) rest => toEnumValue { v with name := s } rest
  | .cons 2 (.number n) rest => toEnumValue { v with number := signed32 n } rest
  | .cons 3 (.record r) rest => toEnumValue { v with settings := toSettings v.settings r } rest
  | .cons _ _ rest => toEnumValue v rest

def toEnum (e : EnumDecl) : Record → EnumDecl
  | .nil => e
  | .cons 1 (.text s) rest => toEnum { e with name := s } rest
  | .cons 2 (.record r) rest => toEnum { e with values := e.values ++ [toEnumValue {} r] } rest
  | .cons 3 (.record r) rest => toEnum { e with settings := toSettings e.settings r } rest
  | .cons 4 (.record r) rest => toEnum { e with reserved := e.reserved ++ [toRange {} r] } rest
  | .cons _ _ rest => toEnum e rest

def toMessage (m : MessageDecl) : Record → MessageDecl
  | .nil => m
  | .cons 1 (.text s) rest => toMessage { m with name := s } rest
  | .cons 2 (.record r) rest => toMessage { m with fields := m.fields ++ [toField {} r] } rest
  | .cons 3 (.record r) rest => toMessage { m with nested := m.nested ++ [toMessage {} r] } rest
  | .cons 4 (.record r) rest => toMessage { m with enums := m.enums ++ [toEnum {} r] } rest
  | .cons 5 (.record r) rest =>
    toMessage { m with extensionRanges := m.extensionRanges ++ [toExtensionRange {} r] } rest
  | .cons 6 (.record r) rest =>
    toMessage { m with extensions := m.extensions ++ [toField {} r] } rest
  | .cons 7 (.record r) rest => toMessage { m with settings := toSettings m.settings r } rest
  | .cons 8 (.record r) rest => toMessage { m with oneofs := m.oneofs ++ [toOneof {} r] } rest
  | .cons 9 (.record r) rest => toMessage { m with reserved := m.reserved ++ [toRange {} r] } rest
  | .cons _ _ rest => toMessage m rest

def toMethod (m : MethodDecl) : Record → MethodDecl
  | .nil => m
  | .cons 1 (.text s) rest => toMethod { m with name := s } rest
  | .cons 2 (.text s) rest => toMethod { m with input := s } rest
  | .cons 3 (.text s) rest => toMethod { m with output := s } rest
  | .cons 4 (.record r) rest => toMethod { m with settings := toSettings m.settings r } rest
  | .cons _ _ rest => toMethod m rest

def toService (s : ServiceDecl) : Record → ServiceDecl
  | .nil => s
  | .cons 1 (.text t) rest => toService { s with name := t } rest
  | .cons 2 (.record r) rest => toService { s with methods := s.methods ++ [toMethod {} r] } rest
  | .cons 3 (.record r) rest => toService { s with settings := toSettings s.settings r } rest
  | .cons _ _ rest => toService s rest

def toFile (f : FileDecl) : Record → FileDecl
  | .nil => f
  | .cons 1 (.text s) rest => toFile { f with name := s } rest
  | .cons 2 (.text s) rest => toFile { f with package := s } rest
  | .cons 3 (.text s) rest => toFile { f with imports := f.imports ++ [s] } rest
  | .cons 4 (.record r) rest => toFile { f with messages := f.messages ++ [toMessage {} r] } rest
  | .cons 5 (.record r) rest => toFile { f with enums := f.enums ++ [toEnum {} r] } rest
  | .cons 6 (.record r) rest => toFile { f with services := f.services ++ [toService {} r] } rest
  | .cons 7 (.record r) rest => toFile { f with extensions := f.extensions ++ [toField {} r] } rest
  | .cons 8 (.record r) rest => toFile { f with settings := toSettings f.settings r } rest
  | .cons 10 (.numbers ns) rest =>
    toFile { f with publicImports := f.publicImports ++ ns.map signed32 } rest
  | .cons 11 (.numbers ns) rest =>
    toFile { f with weakImports := f.weakImports ++ ns.map signed32 } rest
  | .cons 12 (.text s) rest => toFile { f with dialect := some s } rest
  | .cons _ _ rest => toFile f rest

def toFiles : Record → List FileDecl
  | .nil => []
  | .cons 1 (.record r) rest => toFile {} r :: toFiles rest
  | .cons _ _ rest => toFiles rest

end Record

def decodeFiles? (bs : List UInt8) : Option (List FileDecl) :=
  (part? nestingLimit .fileSet bs).map Record.toFiles

inductive LoadError
  | malformed
  | invalid
  deriving DecidableEq, Repr

namespace Pool

def load (p : Pool) (files : List FileDecl) : Except LoadError Pool :=
  match p.load? wellKnown files with
  | some q => .ok q
  | none => .error .invalid

def loadBytes (p : Pool) (bs : List UInt8) : Except LoadError Pool :=
  match decodeFiles? bs with
  | some files => p.load files
  | none => .error .malformed

end Pool

end ExprTyping.Descriptor
