import FixedPage.Markup.Event
import FixedPage.Markup.Reference
import FixedPage.Markup.Token

/-
  This file reads the inside of a start tag: the element name and
  the attributes. A scanner takes one byte at a time; an
  attribute is complete when its closing quote is reached.

  Main declarations:
    * `decodeText`
    * `Tag.Scanner`
    * `Tag.read`
-/

namespace FixedPage.Markup

/- Decodes the bytes of a name or a text. -/
def decodeText
    (bytes : List UInt8) : Except Fault String :=
  match Text.Utf8.decode bytes with
  | .ok cs => .ok (String.ofList cs)
  | .error fault => .error (.encoding fault)

namespace Tag

------------------------------------------------------------
-- Attribute values
------------------------------------------------------------

/- Line ends and tabs count as spaces inside a value. -/
def normalizeChar
    (c : Char) : Char :=
  if c == '\t' || c == '\n' || c == '\r' then ' ' else c

/- Reads the bytes between the quotes of an attribute. -/
def readValue
    (bytes : List UInt8) : Except Fault String := do
  let raw ← decodeText bytes
  match unescape (raw.toList.map normalizeChar) with
  | .ok value => .ok (String.ofList value)
  | .error fault => .error (.reference fault)

/- Reads the name and value of an attribute. -/
def readAttribute
    (key value : List UInt8) : Except Fault Attribute := do
  let name ← decodeText key
  let value ← readValue value
  pure ⟨name, value⟩

------------------------------------------------------------
-- Scanner
------------------------------------------------------------

/- The bytes of an attribute name and where it starts. -/
structure Key where
  start : Nat
  bytes : List UInt8
deriving DecidableEq, Repr

/-
  Where the scanner is: between attributes, in a name, after a
  name, before a value, or in a value. Bytes under way are held
  last first.
-/
inductive Place where
  | gap
  | name
      (start : Nat)
      (reversed : List UInt8)
  | named
      (key : Key)
  | equals
      (key : Key)
  | value
      (key : Key)
      (quote : UInt8)
      (reversed : List UInt8)
deriving DecidableEq, Repr

/- The attributes read so far and their names, the last first. -/
structure Scanner where
  place : Place
  keys : List Key
  attributes : List Attribute
deriving DecidableEq, Repr

namespace Scanner

/- The scanner before the first byte. -/
def initial : Scanner :=
  ⟨.gap, [], []⟩

/- Goes on after the `=` that follows a name. -/
def acceptKey
    (s : Scanner)
    (key : Key) : Except Fault Scanner :=
  match s.keys.find? (·.bytes == key.bytes) with
  | some first =>
      .error (.inTag key.start (.duplicated first.start))
  | none => .ok { s with place := .equals key, keys := key :: s.keys }

/- Goes on after the closing quote of a value. -/
def acceptValue
    (s : Scanner)
    (key : Key)
    (bytes : List UInt8) : Except Fault Scanner := do
  let read ← readAttribute key.bytes bytes
  pure { s with
    place := .gap
    attributes := read :: s.attributes }

/- Takes the byte at a position. -/
def step
    (s : Scanner)
    (position : Nat)
    (b : UInt8) : Except Fault Scanner :=
  match s.place with
  | .gap =>
      if isSpace b then .ok s
      else .ok { s with place := .name position [b] }
  | .name start reversed =>
      if b == byte '=' then s.acceptKey ⟨start, reversed.reverse⟩
      else if isSpace b then
        .ok { s with place := .named ⟨start, reversed.reverse⟩ }
      else .ok { s with place := .name start (b :: reversed) }
  | .named key =>
      if b == byte '=' then s.acceptKey key
      else if isSpace b then .ok s
      else .error (.inTag position .equalsExpected)
  | .equals key =>
      if isSpace b then .ok s
      else if b == byte '"' || b == byte '\'' then
        .ok { s with place := .value key b [] }
      else .error (.inTag position .unquotedValue)
  | .value key quote reversed =>
      if b == quote then s.acceptValue key reversed.reverse
      else .ok { s with place := .value key quote (b :: reversed) }

/- Ends the tag at a position. -/
def finish
    (s : Scanner)
    (position : Nat) : Except Fault (List Attribute) :=
  match s.place with
  | .gap => .ok s.attributes.reverse
  | .name _ _ => .error (.inTag position .equalsExpected)
  | .named _ => .error (.inTag position .equalsExpected)
  | .equals _ => .error (.inTag position .valueExpected)
  | .value _ quote _ =>
      .error
        (.inTag position (.unclosedQuote (Char.ofNat quote.toNat)))

/- Takes bytes, the first of which has the given position. -/
def run
    (s : Scanner)
    (position : Nat) :
    List UInt8 → Except Fault (List Attribute)
| [] => s.finish position
| b :: rest =>
    match s.step position b with
    | .ok next => next.run (position + 1) rest
    | .error fault => .error fault

end Scanner

------------------------------------------------------------
-- Tags
------------------------------------------------------------

/- The bytes of the element name. -/
def nameBytes
    (content : List UInt8) : List UInt8 :=
  content.takeWhile (fun b => !isSpace b)

/- Reads what stands between the brackets of a start tag. -/
def read
    (content : List UInt8) : Except Fault Event := do
  let nameBytes := nameBytes content
  let name ← decodeText nameBytes
  let attributes ←
    Scanner.initial.run nameBytes.length
      (content.drop nameBytes.length)
  pure (.startTag name attributes)

end Tag

end FixedPage.Markup
