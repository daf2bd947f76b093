import ExprTyping.Descriptor.Pool.Basic
import ExprTyping.Text.Utf8

namespace ExprTyping.Descriptor

namespace Setting

def isInteger (s : Setting) (low high : Int) : Bool :=
  match s.positive, s.negative with
  | some n, _ => (n : Int) ≤ high
  | none, some n => low ≤ n && n ≤ high
  | none, none => false

def isDecimal (s : Setting) : Bool :=
  s.hasDecimal || s.positive.isSome || s.negative.isSome || s.word == some "inf" ||
    s.word == some "nan"

/-- The value of a setting for a scalar type, if it suits the type: one for the truth value true,
and zero for all else. -/
def scalar? (s : Setting) (t : Scalar) : Option Nat :=
  let check (b : Bool) : Option Nat := if b then some 0 else none
  match t with
  | .double | .float => check s.isDecimal
  | .int32 | .sint32 | .sfixed32 => check (s.isInteger (-0x80000000) 0x7FFFFFFF)
  | .int64 | .sint64 | .sfixed64 => check (s.isInteger (-0x8000000000000000) 0x7FFFFFFFFFFFFFFF)
  | .uint32 | .fixed32 => check (s.isInteger 0 0xFFFFFFFF)
  | .uint64 | .fixed64 => check (s.isInteger 0 0xFFFFFFFFFFFFFFFF)
  | .bool => if s.word == some "true" then some 1 else check (s.word == some "false")
  | .string => check (s.text.any fun bs => (Text.Utf8.decode? bs).isSome)
  | .bytes => check s.text.isSome

end Setting

namespace Pool

def orElse (p q : Pool) : Pool :=
  { p with
    messages := ⟨p.messages.entries ++ q.messages.entries⟩
    enums := ⟨p.enums.entries ++ q.enums.entries⟩ }

def optionField? (p : Pool) (s : Scope) (message : String) (step : OptionStep) : Option Field :=
  if step.isExtension then do
    let (name, _) ← s.resolve? Entity.isExtension step.name
    let e ← p.extensions.find? name
    if e.extendee = message then some e.field else none
  else do
    let m ← p.messages.find? message
    m.fields.find? (·.name == step.name)

def settingValue? (p : Pool) (s : Setting) : FieldKind → Option Nat
  | .scalar t => s.scalar? t
  | .message _ => none
  | .enum n => do
    let e ← p.enums.find? n
    let word ← s.word
    if e.values.contains word then some 0 else none

def applySetting? (p : Pool) (scope : Scope) (setting : Setting) :
    List Int → String → List OptionStep → Settings → Option Settings
  | _, _, [], _ => none
  | path, message, [step], given => do
    let f ← p.optionField? scope message step
    let path := path ++ [f.number]
    guard (f.repeated || !given.isGiven path)
    return given.give path (← p.settingValue? setting f.kind)
  | path, message, step :: steps, given => do
    let f ← p.optionField? scope message step
    let path := path ++ [f.number]
    match f.kind with
    | .message inner =>
      guard !f.repeated
      applySetting? p scope setting path inner steps (given.give path 0)
    | _ => none

def settle? (p : Pool) (scope : Scope) (message : String) (s : Settings) : Option Settings :=
  s.named.foldlM (fun given n => p.applySetting? scope n [] message n.steps given) s

end Pool

end ExprTyping.Descriptor
