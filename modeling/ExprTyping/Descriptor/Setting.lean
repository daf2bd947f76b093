import ExprTyping.Table

namespace ExprTyping.Descriptor

structure OptionStep where
  name : String := ""
  isExtension : Bool := false

structure Setting where
  steps : List OptionStep := []
  word : Option String := none
  positive : Option Nat := none
  negative : Option Int := none
  hasDecimal : Bool := false
  text : Option (List UInt8) := none

structure Settings where
  /-- The options that have a value, by the numbers of the fields on the way to them. Of truth
  values the value is kept, as one or zero. -/
  given : Table (List Int) Nat := {}
  named : List Setting := []

namespace Settings

def isGiven (s : Settings) (path : List Int) : Bool := s.given.contains path

def isOn (s : Settings) (number : Int) : Bool := (s.given.find? [number]).any (· != 0)

def give (s : Settings) (path : List Int) (value : Nat) : Settings :=
  { s with given := s.given.insert path value }

def mapEntry : Int := 7

def allowAlias : Int := 2

def mapEntries : Settings := give {} [mapEntry] 1

end Settings

end ExprTyping.Descriptor
