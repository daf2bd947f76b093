import ExprTyping.Table
import ExprTyping.Text.Blank
import ExprTyping.Text.Dotted

namespace ExprTyping

open Text

structure Container where
  name : String := ""
  aliases : Table String String := {}

namespace Container

inductive Error
  | leadingDot (name : String)
  | unqualified (name : String)
  | abbreviationCollision (name abbreviation existing : String)
  | containerCollision (name abbreviation container : String)
  deriving DecidableEq, Repr

def Error.message : Error → String
  | leadingDot n => "container name must not begin with a leading '.': " ++ n
  | unqualified n => "abbreviation must refer to a valid qualified name: " ++ n
  | abbreviationCollision n a e =>
    "abbreviation collides with existing reference: name=" ++ n ++ ", abbreviation=" ++ a ++
      ", existing=" ++ e
  | containerCollision n a c =>
    "abbreviation collides with container name: name=" ++ n ++ ", abbreviation=" ++ a ++
      ", container=" ++ c

def make (name : String) : Except Error Container :=
  if (Dotted.rooted? name).isSome then .error (.leadingDot name) else .ok { name }

def isQualified (name : String) : Bool := name.toList.contains '.' && Dotted.last name != ""

def abbreviate (c : Container) (qualified : String) : Except Error Container :=
  let abbreviation := Dotted.last qualified
  if (Dotted.rooted? qualified).isSome then .error (.leadingDot qualified)
  else if !isQualified qualified then .error (.unqualified qualified)
  else
    match c.aliases.find? abbreviation with
    | some existing => .error (.abbreviationCollision qualified abbreviation existing)
    | none =>
      if Dotted.head c.name = abbreviation then
        .error (.containerCollision qualified abbreviation c.name)
      else .ok { c with aliases := c.aliases.insert abbreviation qualified }

def abbreviateAll (c : Container) (names : List String) : Except Error Container :=
  names.foldlM (fun c n => c.abbreviate (trim n)) c

def expand? (c : Container) (name : String) : Option String :=
  (c.aliases.find? (Dotted.head name)).map (· ++ Dotted.tail name)

/-- The names that `name` may stand for. A leading dot takes the name out of the container, an
abbreviation has one candidate, and any other name is tried in each enclosing package. -/
def candidates (c : Container) (name : String) : List String :=
  match Dotted.rooted? name with
  | some rooted => [(c.expand? rooted).getD rooted]
  | none =>
    match c.expand? name with
    | some expanded => [expanded]
    | none =>
      if c.name = "" then [name]
      else (Dotted.packages c.name).map (Dotted.join · name) ++ [name]

end Container

end ExprTyping
