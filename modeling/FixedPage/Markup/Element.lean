import FixedPage.Error

/-
  This file defines what readers of a part know of an element
  when it starts, and how its attributes are read. What is wrong
  with an attribute is reported at the place of its element.

  Main declarations:
    * `Element`
    * `Element.required`
    * `Element.read`
    * `Element.readRequired`
-/

namespace FixedPage

open Markup

/- An element that has started. -/
structure Element where
  place : Location
  name : String
  attributes : List Attribute
deriving DecidableEq, Repr

namespace Element

/- Value of an attribute. -/
def value?
    (e : Element)
    (name : String) : Option String :=
  valueOf? e.attributes name

/- The element is not known where it stands. -/
def unknown
    (e : Element) : Error :=
  .unknownElement e.place e.name

/- The element has no such attribute. -/
def unknownAttribute
    (e : Element)
    (name : String) : Error :=
  .unknownAttribute e.place e.name name

/- An attribute has a value that does not follow its grammar. -/
def invalid
    (e : Element)
    (name content : String) : Error :=
  .invalidContent e.place e.name name content

/- Value of an attribute that the element cannot do without. -/
def required
    (e : Element)
    (name : String) : Except Error String :=
  match e.value? name with
  | some value => .ok value
  | none => .error (.missingAttribute e.place e.name name)

/- Reads the value of an attribute by its grammar. -/
def read
    {β : Type}
    (e : Element)
    (name : String)
    (grammar : String → Option β)
    (value : String) : Except Error β :=
  match grammar value with
  | some result => .ok result
  | none => .error (e.invalid name value)

/- Reads an attribute that the element cannot do without. -/
def readRequired
    {β : Type}
    (e : Element)
    (name : String)
    (grammar : String → Option β) : Except Error β := do
  let value ← e.required name
  e.read name grammar value

end Element

end FixedPage
