import FixedPage.Markup.Event
import FixedPage.Markup.Reference

/-
  This file records the markup of a dictionary entry while its
  elements are read, so that they can be read again later. The
  entry is wrapped in an element of the same name:

    <SolidColorBrush>
    <SolidColorBrush Color="#FF0000">
    </SolidColorBrush>
    </SolidColorBrush>

  Main declarations:
    * `ResourceEntry`
    * `ResourceEntry.begin`
    * `ResourceEntry.startChild`
    * `ResourceEntry.endElement?`
    * `ResourceEntry.markup`
-/

namespace FixedPage

/- The attribute that names a dictionary entry. -/
def keyAttribute : String :=
  "x:Key"

/-
  The key and root element of an entry, the markup so far, and
  the number of elements open below the root.
-/
structure ResourceEntry where
  key : String
  root : String
  written : String
  nesting : Nat
deriving DecidableEq, Repr

namespace ResourceEntry

open Markup

/- Written form of an attribute. -/
def attributeText
    (a : Attribute) : String :=
  " " ++ a.name ++ "=\"" ++ escape a.value ++ "\""

/- Written form of a start tag, without the key of an entry. -/
def startTagText
    (name : String)
    (attributes : List Attribute) : String :=
  let kept := attributes.filter (·.name != keyAttribute)
  "<" ++ name ++ String.join (kept.map attributeText) ++ ">\n"

/- Written form of an end tag. -/
def endTagText
    (name : String) : String :=
  "</" ++ name ++ ">"

/- Starts the entry of a root element. -/
def begin
    (key name : String)
    (attributes : List Attribute) : ResourceEntry where
  key := key
  root := name
  written := "<" ++ name ++ ">\n" ++ startTagText name attributes
  nesting := 0

/- Records a start tag below the root. -/
def startChild
    (name : String)
    (attributes : List Attribute)
    (e : ResourceEntry) : ResourceEntry :=
  { e with
    written := e.written ++ startTagText name attributes
    nesting := e.nesting + 1 }

/-
  Records an end tag; there is no entry to go on with when it
  closes the root.
-/
def endElement?
    (name : String)
    (e : ResourceEntry) : Option ResourceEntry :=
  if e.nesting == 0 then none
  else
    some { e with
      written := e.written ++ endTagText name ++ "\n"
      nesting := e.nesting - 1 }

/- The markup of an entry whose root is closed. -/
def markup
    (e : ResourceEntry) : String :=
  e.written ++ endTagText e.root ++ "\n" ++ endTagText e.root

end ResourceEntry

end FixedPage
