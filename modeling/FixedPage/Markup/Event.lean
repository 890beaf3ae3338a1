/-
  This file defines what a markup part consists of for its
  readers: start tags with attributes, end tags and text, each
  with the place where it was read.

  Main declarations:
    * `Location`
    * `Attribute`
    * `Event`
    * `valueOf?`
-/

namespace FixedPage

/- A place in a part: its name, line and column, from one. -/
structure Location where
  source : String
  line : Nat
  column : Nat
deriving DecidableEq, Repr

/- How a place is written in an error. -/
def Location.text
    (l : Location) : String :=
  l.source ++ ":" ++ toString l.line ++ ":" ++ toString l.column

namespace Markup

/- A named value of a start tag. -/
structure Attribute where
  name : String
  value : String
deriving DecidableEq, Repr

/- Value of the first attribute with a name. -/
def valueOf?
    (attributes : List Attribute)
    (name : String) : Option String :=
  (attributes.find? (·.name == name)).map Attribute.value

/- One piece of a part. -/
inductive Event where
  | startTag
      (name : String)
      (attributes : List Attribute)
  | endTag
      (name : String)
  | text
      (content : String)
deriving DecidableEq, Repr

end Markup

end FixedPage
