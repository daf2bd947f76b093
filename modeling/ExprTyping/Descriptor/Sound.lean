import ExprTyping.Descriptor.File

namespace ExprTyping.Descriptor

def allDistinct {α : Type} [BEq α] : List α → Bool
  | [] => true
  | a :: as => !as.contains a && allDistinct as

def joinWords (capital : Bool) : List Char → List Char
  | [] => []
  | c :: cs =>
    if c = '_' then joinWords true cs
    else (if capital then c.toUpper else c) :: joinWords false cs

namespace FieldDecl

def textName (f : FieldDecl) : String :=
  f.jsonName.getD (String.ofList (joinWords false f.name.toList))

def foldedName (f : FieldDecl) : String :=
  String.ofList ((f.name.toList.filter (· != '_')).map Char.toLower)

def oneofFits (f : FieldDecl) (oneofs : Nat) : Bool :=
  f.oneofIndex.all fun i : Int => 0 ≤ i && i < oneofs

end FieldDecl

namespace MessageDecl

def numbersFit (m : MessageDecl) : Bool :=
  allDistinct (m.fields.map FieldDecl.number) &&
    m.fields.all fun f => m.plan.admits f.isExtension f.number

def namesFit (m : MessageDecl) (isProto3 : Bool) : Bool :=
  allDistinct (m.fields.map FieldDecl.textName) &&
    (!isProto3 || allDistinct (m.fields.map FieldDecl.foldedName))

def fieldsFit (m : MessageDecl) (isProto3 : Bool) : Bool :=
  m.numbersFit && m.namesFit isProto3 &&
    m.fields.all (·.oneofFits m.oneofs.length)

end MessageDecl

def EnumDecl.valuesFit (e : EnumDecl) (isProto3 : Bool) : Bool :=
  match e.values with
  | [] => false
  | v :: _ =>
    (!isProto3 || v.number == 0) && e.values.all fun v => !e.reserved.any (·.has v.number)

namespace FileDecl

def isImportIndex (f : FileDecl) (i : Int) : Bool := 0 ≤ i && i < f.imports.length

def isSound (f : FileDecl) : Bool :=
  match f.isProto3? with
  | none => false
  | some isProto3 =>
    f.publicImports.all f.isImportIndex && f.weakImports.all f.isImportIndex &&
      (f.messageDefs.all fun m => m.decl.fieldsFit isProto3) &&
      f.enumDefs.all fun e => e.decl.valuesFit isProto3

end FileDecl

end ExprTyping.Descriptor
