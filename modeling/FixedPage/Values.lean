import FixedPage.Decimal.Numeral
import FixedPage.Geometry.Rectangle
import FixedPage.Text.Blank

/-
  This file reads attribute values: numbers, points, matrices,
  boxes, lists of them, and references to resources. A value
  that does not follow its grammar has no reading.

  Main declarations:
    * `Value.number?`
    * `Value.integer?`
    * `Value.boolean?`
    * `Value.point?`
    * `Value.points?`
    * `Value.matrix?`
    * `Value.box?`
    * `Value.dashes?`
    * `Value.resourceKey?`
-/

namespace FixedPage.Value

open Text

variable {α : Type} [Scalar α]

------------------------------------------------------------
-- Numbers
------------------------------------------------------------

/- Reads a finite number with blanks around it. -/
def readNumber?
    (cs : List Char) : Option α :=
  (Scalar.read? (trim cs)).filter Scalar.isFinite

/- Reads a finite number. -/
def number?
    (value : String) : Option α :=
  readNumber? value.toList

/- Reads a whole number from `-2 ^ 31` to `2 ^ 31 - 1`. -/
def integer?
    (value : String) : Option Int :=
  let (negative, digits) := Decimal.cutSign (trim value.toList)
  if digits.isEmpty || !digits.all Char.isDigit then none
  else
    let size := Decimal.natOfDigits digits
    if negative then
      if size ≤ Nat.pow 2 31 then some (-(size : Int)) else none
    else if size < Nat.pow 2 31 then some size
    else none

/- Reads `true` or `false`. -/
def boolean? : String → Option Bool
| "true" => some true
| "false" => some false
| _ => none

------------------------------------------------------------
-- Lists of numbers
------------------------------------------------------------

/- Reads two numbers around the last comma. -/
def readPoint?
    (cs : List Char) : Option (Point α) := do
  let (x, y) ← cutLast ',' (trim cs)
  let x ← readNumber? x
  let y ← readNumber? y
  pure ⟨x, y⟩

/- Reads a point. -/
def point?
    (value : String) : Option (Point α) :=
  readPoint? value.toList

/- Reads numbers between commas. -/
def numbers?
    (value : String) : Option (List α) :=
  (fields (· == ',') value.toList).mapM readNumber?

/- Reads the six entries of a matrix. -/
def matrix?
    (value : String) : Option (Matrix α) :=
  match numbers? value with
  | some [xx, yx, xy, yy, x0, y0] => some ⟨xx, yx, xy, yy, x0, y0⟩
  | _ => none

/- Reads corner and size of a box. -/
def box?
    (value : String) : Option (Rectangle α) :=
  match numbers? value with
  | some [x, y, width, height] => some ⟨x, y, width, height⟩
  | _ => none

/- Reads numbers between blanks. -/
def dashes?
    (value : String) : Option (List α) :=
  (words value.toList).mapM readNumber?

/- Reads points between blanks. -/
def points?
    (value : String) : Option (List (Point α)) :=
  (words value.toList).mapM readPoint?

------------------------------------------------------------
-- References
------------------------------------------------------------

/- What stands between a leading and a closing brace. -/
def braced?
    (cs : List Char) : Option (List Char) :=
  match cs with
  | '\x7b' :: rest =>
      if rest.getLast? == some '\x7d' then some rest.dropLast else none
  | _ => none

/- Reads the key of a reference to a static resource. -/
def resourceKey?
    (value : String) : Option String := do
  let inner ← braced? (trim value.toList)
  let key ← afterPrefix "StaticResource".toList (trimStart inner)
  let key := trim key
  if key.isEmpty then none else some (String.ofList key)

end FixedPage.Value
