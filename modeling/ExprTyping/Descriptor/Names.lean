import ExprTyping.Descriptor.File
import ExprTyping.Table

namespace ExprTyping.Descriptor

inductive Entity
  | package | message | field | oneof | enum | enumValue | service | method | extension
  deriving DecidableEq, Repr

namespace Entity

def isScope : Entity → Bool
  | package | message | enum | service => true
  | field | oneof | enumValue | method | extension => false

def isType : Entity → Bool
  | message | enum => true
  | _ => false

def isMessage : Entity → Bool
  | message => true
  | _ => false

def isExtension : Entity → Bool
  | extension => true
  | _ => false

end Entity

structure Named where
  entity : Entity
  file : String

def MessageDef.names (m : MessageDef) : List (String × Entity) :=
  (m.name, .message) :: (m.decl.fields.map fun f => (qualify m.name f.name, .field)) ++
    m.decl.oneofs.map fun o => (qualify m.name o.name, .oneof)

/-- The full names that an enum takes. Its values stand beside it, not inside it. -/
def EnumDef.names (e : EnumDef) : List (String × Entity) :=
  (e.name, .enum) :: e.decl.values.map fun v => (qualify e.scope v.name, .enumValue)

def ServiceDecl.names (s : ServiceDecl) (package : String) : List (String × Entity) :=
  let name := qualify package s.name
  (name, .service) :: s.methods.map fun m => (qualify name m.name, .method)

def FileDecl.names (f : FileDecl) : List (String × Entity) :=
  f.packages.map (·, .package) ++ f.messageDefs.flatMap MessageDef.names ++
    f.enumDefs.flatMap EnumDef.names ++ f.services.flatMap (·.names f.package) ++
    f.extensionDefs.map fun e => (e.name, .extension)

def enterName? (names : Table String Named) (name : String) (n : Named) :
    Option (Table String Named) :=
  match names.find? name with
  | none => some (names.insert name n)
  | some old => if old.entity = .package ∧ n.entity = .package then some names else none

def FileDecl.enterNames? (f : FileDecl) (names : Table String Named) :
    Option (Table String Named) :=
  f.names.foldlM (fun names n => enterName? names n.1 ⟨n.2, f.name⟩) names

structure Scope where
  names : Table String Named
  visible : List String
  name : String

namespace Scope

def find? (s : Scope) (wanted : Entity → Bool) (name : String) : Option (String × Entity) :=
  match s.names.find? name with
  | none => none
  | some n => if s.visible.contains n.file ∧ wanted n.entity then some (name, n.entity) else none

def around (s : Scope) : List String := Text.Dotted.packages s.name ++ [""]

def holdsNames (s : Scope) (name : String) : Bool :=
  match s.names.find? name with
  | none => false
  | some n => n.entity.isScope

/-- What a name stands for. A leading dot marks a full name. A name of one segment is found in the
innermost scope that has it. Of a longer name the first segment settles the scope, and the rest
must be found there. -/
def resolve? (s : Scope) (wanted : Entity → Bool) (name : String) : Option (String × Entity) :=
  match Text.Dotted.rooted? name with
  | some full => s.find? wanted full
  | none =>
    if s.name = "" then s.find? wanted name
    else if Text.Dotted.tail name = "" then
      s.around.findSome? fun outer => s.find? wanted (qualify outer name)
    else
      match s.around.find? fun outer => s.holdsNames (qualify outer (Text.Dotted.head name)) with
      | some outer => s.find? wanted (qualify outer name)
      | none => none

end Scope

end ExprTyping.Descriptor
