import FixedPage.Markup.Fault
import FixedPage.Decimal.Numeral

/-
  This file relates plain text to its written form inside
  markup, where a few characters are named by references.

  Main declarations:
    * `escape`
    * `unescape`
    * `entity`
-/

namespace FixedPage.Markup

------------------------------------------------------------
-- Writing
------------------------------------------------------------

/- The written form of a character. -/
def escapeChar : Char → List Char
| '<' => "&lt;".toList
| '>' => "&gt;".toList
| '&' => "&amp;".toList
| '\'' => "&apos;".toList
| '"' => "&quot;".toList
| c => [c]

/- The written form of a text. -/
def escape
    (s : String) : String :=
  String.ofList (s.toList.flatMap escapeChar)

------------------------------------------------------------
-- Character codes
------------------------------------------------------------

/- Value of a digit in bases up to sixteen. -/
def digit?
    (base : Nat)
    (c : Char) : Option Nat :=
  let value? :=
    if c.isDigit then some (c.toNat - '0'.toNat)
    else if 'a' ≤ c && c ≤ 'f' then some (c.toNat - 'a'.toNat + 10)
    else if 'A' ≤ c && c ≤ 'F' then some (c.toNat - 'A'.toNat + 10)
    else none
  value?.filter (· < base)

/-
  Reads digits onto a number that has to stay below `2 ^ 32`.
  The first digit that is none, or that makes the number too
  large, decides the fault.
-/
def readDigits
    (base : Nat)
    (value : Nat) :
    List Char → Except CodeFault Nat
| [] => .ok value
| c :: rest =>
    match digit? base c with
    | none => .error .invalidDigit
    | some d =>
        let next := value * base + d
        if next < Nat.pow 2 32 then readDigits base next rest
        else .error .tooLarge

/- Reads the number of a character reference. -/
def readCode
    (base : Nat) :
    List Char → Except CodeFault Nat
| [] => .error .empty
| c :: rest =>
    if c == '+' || c == '-' then .error .signed
    else readDigits base 0 (c :: rest)

/- The character that a character reference names. -/
def characterOf
    (cs : List Char) : Except CodeFault Char := do
  let code ←
    match cs with
    | 'x' :: digits => readCode 16 digits
    | digits => readCode 10 digits
  if code == 0 then .error .null
  else if h : code.isValidChar then .ok (Char.ofNatAux code h)
  else .error (.notACharacter code)

------------------------------------------------------------
-- Reading
------------------------------------------------------------

/- The characters that have a name. -/
def named? : List Char → Option Char
| ['l', 't'] => some '<'
| ['g', 't'] => some '>'
| ['a', 'm', 'p'] => some '&'
| ['a', 'p', 'o', 's'] => some '\''
| ['q', 'u', 'o', 't'] => some '"'
| _ => none

/-
  The character that a reference names, where `first` and
  `last` are the byte positions of its name.
-/
def entity
    (first last : Nat)
    (name : List Char) : Except ReferenceFault Char :=
  match name with
  | '#' :: code =>
      match characterOf code with
      | .ok c => .ok c
      | .error fault => .error (.code fault)
  | name =>
      match named? name with
      | some c => .ok c
      | none =>
          .error (.unknownEntity first last (String.ofList name))

/- Number of bytes that characters take. -/
def byteSize
    (cs : List Char) : Nat :=
  (cs.map Char.utf8Size).foldr (· + ·) 0

/-
  Replaces references by the characters they name. `position`
  is the byte position of the next character; inside a
  reference, `open?` holds the position of its ampersand and
  its name so far, the last character first. A reference that
  does not end before the next ampersand is taken to reach to
  the end of the text.
-/
def unescapeFrom
    (position : Nat)
    (open? : Option (Nat × List Char)) :
    List Char → Except ReferenceFault (List Char)
| [] =>
    match open? with
    | none => .ok []
    | some (start, _) => .error (.unterminated start position)
| c :: rest =>
    let next := position + c.utf8Size
    match open? with
    | none =>
        if c == '&' then
          unescapeFrom next (some (position, [])) rest
        else
          (unescapeFrom next none rest).map (c :: ·)
    | some (start, name) =>
        if c == '&' then
          .error (.unterminated start (position + byteSize (c :: rest)))
        else if c == ';' then
          match entity (start + 1) position name.reverse with
          | .error fault => .error fault
          | .ok found =>
              (unescapeFrom next none rest).map (found :: ·)
        else
          unescapeFrom next (some (start, c :: name)) rest

/- Replaces the references of a text. -/
def unescape
    (cs : List Char) : Except ReferenceFault (List Char) :=
  unescapeFrom 0 none cs

end FixedPage.Markup
