import FixedPage.Decimal.Binary64

/-
  This file finds the shortest decimal that reads back as a
  given machine number and writes it positionally or in
  scientific form.

  For one digit, two digits and so on, the two neighbours of the
  number on the decimal grid with that many digits are tested
  against the interval of reals that round to the number. The
  first grid with a neighbour inside gives the digits; of two
  neighbours inside, the nearer one, and the upper one when both
  are equally near.

  Main declarations:
    * `Shortest.digits`
    * `positional`
    * `listed`
-/

namespace FixedPage.Decimal

/- The decimal `digits * 10 ^ exponent`. -/
structure Expansion where
  digits : Nat
  exponent : Int
deriving DecidableEq, Repr

------------------------------------------------------------
-- Choosing the digits
------------------------------------------------------------

namespace Shortest

/-
  The reals that round to a positive machine number, in units
  of a quarter of its last place: `low` and `high` bound them
  around `center`, the ends included when `closed`.
-/
structure Interval where
  low : Nat
  center : Nat
  high : Nat
  closed : Bool

/-
  The interval of `m * 2 ^ q`. Below a power of two the
  machine numbers lie twice as dense.
-/
def interval
    (significand : Nat)
    (exponent : Int) : Interval where
  low :=
    if significand == Nat.pow 2 52 && exponent != -1074 then
      4 * significand - 1
    else
      4 * significand - 2
  center := 4 * significand
  high := 4 * significand + 2
  closed := significand % 2 == 0

/-
  Compares `x * unit`, for `unit` the power of two `2 ^ q / 4`,
  with `n * 10 ^ e` by bringing both to integers. The result
  is the pair of integers to compare.
-/
def commonScale
    (exponent : Int)
    (place : Int)
    (x n : Nat) : Nat × Nat :=
  let q := exponent - 2
  let x := if q < 0 then x else x * Nat.pow 2 q.natAbs
  let n := if q < 0 then n * Nat.pow 2 q.natAbs else n
  if place < 0 then
    (x * Nat.pow 10 place.natAbs, n)
  else
    (x, n * Nat.pow 10 place.natAbs)

/- `n * 10 ^ place` lies in the interval. -/
def Interval.holds
    (i : Interval)
    (exponent : Int)
    (place : Int)
    (n : Nat) : Bool :=
  let (low, value) := commonScale exponent place i.low n
  let (high, value') := commonScale exponent place i.high n
  if i.closed then low ≤ value && value' ≤ high
  else low < value && value' < high

/-
  The best neighbour of the number on the grid of multiples of
  `10 ^ place`, if one rounds to the number.
-/
def onGrid
    (i : Interval)
    (exponent : Int)
    (place : Int) : Option Expansion :=
  let (num, den) := commonScale exponent place i.center 1
  let below := num / den
  let lower := i.holds exponent place below
  let upper := i.holds exponent place (below + 1)
  let remainder := 2 * (num % den)
  if lower && upper then
    if remainder < den then some ⟨below, place⟩
    else some ⟨below + 1, place⟩
  else if lower then some ⟨below, place⟩
  else if upper then some ⟨below + 1, place⟩
  else none

/-
  Tries grids from coarse to fine. `fuel` counts the digits
  still allowed; seventeen always suffice.
-/
def search
    (i : Interval)
    (exponent : Int) :
    (fuel : Nat) → (place : Int) → Expansion
| 0, place => ⟨0, place⟩
| fuel + 1, place =>
    match onGrid i exponent place with
    | some found =>
        if found.digits == 0 then
          search i exponent fuel (place - 1)
        else
          found
    | none => search i exponent fuel (place - 1)

/-
  The place of the leading digit of `m * 2 ^ q`.
-/
def leadingPlace
    (significand : Nat)
    (exponent : Int) : Int :=
  let (num, den) := Binary64.quotient significand exponent
  if den ≤ num then
    (Binary64.digitCount (num / den) : Int) - 1
  else
    -(Binary64.digitCount (den / num) : Int)

/- The shortest decimal that reads back as `m * 2 ^ q`. -/
def digits
    (significand : Nat)
    (exponent : Int) : Expansion :=
  search (interval significand exponent) exponent 20
    (leadingPlace significand exponent + 1)

end Shortest

------------------------------------------------------------
-- Writing
------------------------------------------------------------

/- Drops the trailing zeros of a decimal. -/
def stripZeros : (fuel : Nat) → Expansion → Expansion
| 0, d => d
| fuel + 1, d =>
    if d.digits % 10 == 0 && d.digits != 0 then
      stripZeros fuel ⟨d.digits / 10, d.exponent + 1⟩
    else d

/-
  Writes a decimal without exponent, with at least `places`
  digits after the point.
-/
def Expansion.positional
    (d : Expansion)
    (places : Nat) : String :=
  let row := Nat.toDigits 10 d.digits
  let whole :=
    if 0 ≤ d.exponent then
      row ++ List.replicate d.exponent.natAbs '0'
    else
      row.take (row.length - d.exponent.natAbs)
  let fraction :=
    if 0 ≤ d.exponent then []
    else
      List.replicate (d.exponent.natAbs - row.length) '0'
        ++ row.drop (row.length - d.exponent.natAbs)
  let fraction :=
    fraction ++ List.replicate (places - fraction.length) '0'
  let whole := if whole.isEmpty then ['0'] else whole
  let point := if fraction.isEmpty then [] else ['.']
  String.ofList (whole ++ point ++ fraction)

/-
  Writes a decimal as one digit, the other digits after a
  point, and the exponent of the first digit.
-/
def Expansion.scientific
    (d : Expansion) : String :=
  let row := Nat.toDigits 10 d.digits
  let exponent := d.exponent + row.length - 1
  let fraction := row.drop 1
  let point := if fraction.isEmpty then [] else ['.']
  String.ofList (row.take 1 ++ point ++ fraction)
    ++ "e" ++ toString exponent

/- The sign that stands before a number. -/
def signText
    (negative : Bool) : String :=
  if negative then "-" else ""

/-
  Text of a number on its own: the shortest decimal, never
  with an exponent, and no point when it is integral.
-/
def positional
    (x : Float) : String :=
  match Binary64.ofFloat x with
  | .notANumber => "NaN"
  | .infinite negative => signText negative ++ "inf"
  | .finite negative significand exponent =>
      signText negative ++
        if significand == 0 then "0"
        else
          (stripZeros 400
            (Shortest.digits significand exponent)).positional 0

/-
  Text of a number inside a list: at least one digit after the
  point, and scientific form from `1e16` on and below `1e-4`.
-/
def listed
    (x : Float) : String :=
  match Binary64.ofFloat x with
  | .notANumber => "NaN"
  | .infinite negative => signText negative ++ "inf"
  | .finite negative significand exponent =>
      signText negative ++
        if significand == 0 then "0.0"
        else
          let d := stripZeros 400 (Shortest.digits significand exponent)
          let size := x.abs
          if 1e16 ≤ size || size < 1e-4 then d.scientific
          else d.positional 1

end FixedPage.Decimal
