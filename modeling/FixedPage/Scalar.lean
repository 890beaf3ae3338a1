/-
  This file defines the numbers that page geometry is computed
  with. Everything from matrices to the page interpreter is
  written over an arbitrary `Scalar`, so one definition runs on
  machine numbers and can be read over exact numbers.

  Main declarations:
    * `Scalar`
    * `Scalar.isClose`
    * `Scalar.clampUnit`
    * `Scalar.ofNumeral`
-/

namespace FixedPage

------------------------------------------------------------
-- Decimal numerals
------------------------------------------------------------

/-
  What a decimal numeral denotes before it is rounded to a
  scalar: `decimal s n e` is `n * 10 ^ e`, negated when `s`.
-/
inductive Numeral where
  | decimal
      (negative : Bool)
      (digits : Nat)
      (exponent : Int)
  | infinite
      (negative : Bool)
  | notANumber
deriving DecidableEq, Repr

------------------------------------------------------------
-- Scalars
------------------------------------------------------------

/-
  Arithmetic, order and text of the numbers on a page.

  `ofDecimal s n e` is the scalar nearest to `n * 10 ^ e`,
  negated when `s`. `truncate` drops the fraction of a
  nonnegative scalar. `text` writes the shortest decimal that
  reads back as the same scalar, without an exponent.
-/
class Scalar (α : Type) extends
    Zero α, One α, Add α, Sub α, Mul α, Div α, Neg α,
    NatCast α, BEq α where
  lt : α → α → Bool
  hypot : α → α → α
  sin : α → α
  cos : α → α
  halfPi : α
  ofDecimal : Bool → Nat → Int → α
  truncate : α → Nat
  text : α → String

namespace Scalar

variable {α : Type} [Scalar α]

/- `x` is at most `y`; false when either is not a number. -/
def le
    (x y : α) : Bool :=
  lt x y || x == y

/- A scalar is finite when its distance to itself is zero. -/
def isFinite
    (x : α) : Bool :=
  x - x == 0

/-
  The smaller of two scalars, the first when they are equal
  and the other one when either is not a number.
-/
def min
    (x y : α) : α :=
  if lt y x then y
  else if x == x then x
  else y

/-
  The larger of two scalars, the first when they are equal
  and the other one when either is not a number.
-/
def max
    (x y : α) : α :=
  if lt x y then y
  else if x == x then x
  else y

/- Distance from zero. -/
def abs
    (x : α) : α :=
  if lt x 0 then -x else x

/- Two scalars differ by less than a tolerance. -/
def isClose
    (x y tolerance : α) : Bool :=
  lt (abs (x - y)) tolerance

/- Moves a scalar into the range from zero to one. -/
def clampUnit
    (x : α) : α :=
  if lt x 0 then 0
  else if lt 1 x then 1
  else x

/- The scalar that a numeral denotes. -/
def ofNumeral : Numeral → α
| .decimal negative digits exponent =>
    ofDecimal negative digits exponent
| .infinite false => 1 / 0
| .infinite true => -1 / 0
| .notANumber => 0 / 0

end Scalar

end FixedPage
