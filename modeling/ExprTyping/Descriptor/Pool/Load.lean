import ExprTyping.Descriptor.Literal
import ExprTyping.Descriptor.Pool.Options
import ExprTyping.Descriptor.Sound

namespace ExprTyping.Descriptor

def FieldDecl.kind? (f : FieldDecl) (s : Scope) : Option FieldKind :=
  match f.typeName.getD "", f.type with
  | "", .scalar t => some (.scalar t)
  | "", _ => none
  | name, _ =>
    match s.resolve? Entity.isType name with
    | some (full, .message) => some (.message full)
    | some (full, .enum) => some (.enum full)
    | _ => none

def Enum.ofDef (e : EnumDef) : Enum where
  name := e.name
  values := Table.insertAll {} (e.decl.values.map fun v => (v.name, v.number))

structure Setup where
  message : String
  scope : String
  settings : Settings

namespace Setup

def ofFile (f : FileDecl) : Setup := ⟨"google.protobuf.FileOptions", f.package, f.settings⟩

def ofMessage (m : MessageDef) : Setup :=
  ⟨"google.protobuf.MessageOptions", m.name, m.decl.settings⟩

def ofField (scope : String) (f : FieldDecl) : Setup :=
  ⟨"google.protobuf.FieldOptions", qualify scope f.name, f.settings⟩

def ofEnum (e : EnumDef) : Setup := ⟨"google.protobuf.EnumOptions", e.name, e.decl.settings⟩

def allOfMessage (m : MessageDef) : List Setup :=
  ofMessage m :: m.decl.fields.map (ofField m.name) ++
    (m.decl.extensionRanges.map fun r =>
      ⟨"google.protobuf.ExtensionRangeOptions", m.name, r.settings⟩) ++
    m.decl.oneofs.map fun o =>
      ⟨"google.protobuf.OneofOptions", qualify m.name o.name, o.settings⟩

def allOfEnum (e : EnumDef) : List Setup :=
  ofEnum e :: e.decl.values.map fun v =>
    ⟨"google.protobuf.EnumValueOptions", qualify e.scope v.name, v.settings⟩

def allOfService (package : String) (s : ServiceDecl) : List Setup :=
  let name := qualify package s.name
  ⟨"google.protobuf.ServiceOptions", name, s.settings⟩ ::
    s.methods.map fun m => ⟨"google.protobuf.MethodOptions", qualify name m.name, m.settings⟩

def all (f : FileDecl) : List Setup :=
  ofFile f :: f.messageDefs.flatMap allOfMessage ++ f.enumDefs.flatMap allOfEnum ++
    f.services.flatMap (allOfService f.package) ++
    f.extensionDefs.map fun e => ofField e.scope e.decl

end Setup

namespace Pool

def filesFit (p : Pool) (files : List FileDecl) : Bool :=
  let fileNames := files.map FileDecl.name
  allDistinct fileNames &&
    files.all fun f => f.imports.all fun i => p.files.contains i || fileNames.contains i

def enter? (p : Pool) (f : FileDecl) : Option Pool := do
  return { p with
    files := p.files.insert f.name f.passedOn
    names := ← f.enterNames? p.names
    enums := p.enums.insertAll (f.enumDefs.map fun e => (e.name, Enum.ofDef e)) }

/-- The files seen so far with those that a file passes on. Only where one of them is seen already,
what it passes on in turn is seen as well, over at most `n` steps. -/
def seeThrough (p : Pool) : Nat → List String → String → List String
  | 0, seen, _ => seen
  | n + 1, seen, file =>
    ((p.files.find? file).getD []).foldl
      (fun seen next => if seen.contains next then p.seeThrough n seen next else next :: seen) seen

/-- The files that a file sees: itself, and in turn each that it imports with what that passes on.
No file is passed on through more files than there are. -/
def seenBy (p : Pool) (f : FileDecl) : List String :=
  f.imports.foldl (fun seen i => p.seeThrough p.files.size (i :: seen) i) [f.name]

def scope (p : Pool) (f : FileDecl) (name : String) : Scope :=
  { names := p.names, visible := p.seenBy f, name }

def admits (p : Pool) (text : String) : FieldKind → Bool
  | .scalar t => t.admits text
  | .message _ => false
  | .enum n => (p.enums.find? n).any (·.values.contains text)

def field? (p : Pool) (s : Scope) (f : FieldDecl) : Option Field := do
  let kind ← f.kind? s
  guard (f.default.all (p.admits · kind))
  return { name := f.name, number := f.number, kind, repeated := f.repeated }

def messagesOf? (p : Pool) (f : FileDecl) : Option (List Message) :=
  f.messageDefs.mapM fun m => do
    return { name := m.name
             fields := ← m.decl.fields.mapM (p.field? (p.scope f m.name))
             plan := m.decl.plan
             isMapEntry := m.decl.settings.isOn Settings.mapEntry }

def extensionsOf? (p : Pool) (f : FileDecl) : Option (List Extension) :=
  f.extensionDefs.mapM fun e => do
    let s := p.scope f e.scope
    let (extendee, _) ← s.resolve? Entity.isMessage (e.decl.extendee.getD "")
    let m ← p.messages.find? extendee
    guard (m.plan.admits e.decl.isExtension e.decl.number)
    return { name := e.name, extendee, field := ← p.field? s e.decl }

def methodsFit (p : Pool) (f : FileDecl) : Bool :=
  f.services.all fun s => s.methods.all fun m =>
    [m.input, m.output].all fun name =>
      ((p.scope f (qualify f.package s.name)).resolve? Entity.isMessage name).isSome

def settleIn? (p : Pool) (f : FileDecl) (s : Setup) : Option Settings :=
  p.settle? (p.scope f s.scope) s.message s.settings

def optionsFit (p : Pool) (f : FileDecl) : Bool :=
  (Setup.all f).all (fun s => (p.settleIn? f s).isSome) &&
    f.enumDefs.all fun e =>
      allDistinct (e.decl.values.map EnumValueDecl.number) ||
        (p.settleIn? f (Setup.ofEnum e)).any (·.isOn Settings.allowAlias)

def mapEntriesOf (p : Pool) (f : FileDecl) : List String :=
  (f.messageDefs.filter fun m =>
    (p.settleIn? f (Setup.ofMessage m)).any (·.isOn Settings.mapEntry)).map MessageDef.name

def addMessages (p : Pool) (ms : List Message) : Pool :=
  { p with messages := p.messages.insertAll (ms.map fun m => (m.name, m)) }

def addExtensions (p : Pool) (es : List Extension) : Pool :=
  { p with extensions := p.extensions.insertAll (es.map fun e => (e.name, e)) }

/-- The pool with further files, if they fit together and into the pool. Options are looked up in
the pool and then in `base`. -/
def loadNew? (p base : Pool) (files : List FileDecl) : Option Pool := do
  guard (files.all FileDecl.isSound && p.filesFit files)
  let p ← files.foldlM enter? p
  let messages := (← files.mapM p.messagesOf?).flatten
  let p := p.addMessages messages
  let p := p.addExtensions (← files.mapM p.extensionsOf?).flatten
  let known := p.orElse base
  guard (files.all fun f => p.methodsFit f && known.optionsFit f)
  let entries := files.flatMap known.mapEntriesOf
  return p.addMessages (messages.map fun m => { m with isMapEntry := entries.contains m.name })

def load? (p base : Pool) (files : List FileDecl) : Option Pool :=
  p.loadNew? base (files.filter fun f => !p.files.contains f.name)

end Pool

end ExprTyping.Descriptor
