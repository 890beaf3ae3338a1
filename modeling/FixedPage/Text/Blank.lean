/-
  This file defines blank characters and the ways a text is cut
  at them: trimming both ends and splitting into words. It also
  holds the cut at a single separator that attribute value
  lists use.

  Main declarations:
    * `isBlank`
    * `trim`
    * `words`
    * `fields`
-/

namespace FixedPage.Text

/- The characters with the White_Space property. -/
def isBlank
    (c : Char) : Bool :=
  let n := c.toNat
  (9 ≤ n && n ≤ 13) || n == 0x20 || n == 0x85 || n == 0xA0
    || n == 0x1680 || (0x2000 ≤ n && n ≤ 0x200A)
    || n == 0x2028 || n == 0x2029 || n == 0x202F
    || n == 0x205F || n == 0x3000

/- Drops blanks from the front of a text. -/
def trimStart
    (cs : List Char) : List Char :=
  cs.dropWhile isBlank

/- Drops blanks from the back of a text. -/
def trimEnd
    (cs : List Char) : List Char :=
  (cs.reverse.dropWhile isBlank).reverse

/- Drops blanks from both ends of a text. -/
def trim
    (cs : List Char) : List Char :=
  trimEnd (trimStart cs)

/- Trims a string. -/
def trimString
    (s : String) : String :=
  String.ofList (trim s.toList)

/-
  Cuts a text at every separator. A text without a separator
  is one field; neighbouring separators enclose an empty one.
-/
def fields
    (isSeparator : Char → Bool) :
    List Char → List (List Char)
| [] => [[]]
| c :: cs =>
    if isSeparator c then
      [] :: fields isSeparator cs
    else
      match fields isSeparator cs with
      | field :: rest => (c :: field) :: rest
      | [] => [[c]]

/- The maximal runs of characters that are not blank. -/
def words
    (cs : List Char) : List (List Char) :=
  (fields isBlank cs).filter (fun field => !field.isEmpty)

/- Cuts a text at its last separator. -/
def cutLast
    (separator : Char)
    (cs : List Char) : Option (List Char × List Char) :=
  let back := cs.reverse
  match back.dropWhile (· != separator) with
  | [] => none
  | _ :: front =>
      some (front.reverse, (back.takeWhile (· != separator)).reverse)

/- Cuts a text at its first separator. -/
def cutFirst
    (separator : Char)
    (cs : List Char) : Option (List Char × List Char) :=
  match cs.dropWhile (· != separator) with
  | [] => none
  | _ :: rest => some (cs.takeWhile (· != separator), rest)

/- What follows a leading `start`, if the text has one. -/
def afterPrefix
    (start cs : List Char) : Option (List Char) :=
  if start.isPrefixOf cs then some (cs.drop start.length) else none

end FixedPage.Text
