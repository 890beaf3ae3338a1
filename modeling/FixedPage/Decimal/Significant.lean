import FixedPage.Decimal.Binary64

/-
  This file writes machine numbers with a limited number of
  significant digits or of decimal places. The exact value is
  rounded, halves to the even neighbour. Among significant
  digits, zeros at the end are left out; numbers of usual size
  are written out, others with an exponent. With decimal places
  the sign is kept also on zero.

  Main declarations:
    * `leadingExponent`
    * `leadingDigits`
    * `significant`
    * `fixed`
-/

namespace FixedPage.Decimal

------------------------------------------------------------
-- Digits
------------------------------------------------------------

/- The power of ten of the first digit of a quotient. -/
def leadingExponent
    (num den : Nat) : Int :=
  let guess : Int := Binary64.digitCount num - Binary64.digitCount den
  let below :=
    if guess < 0 then num * Nat.pow 10 guess.natAbs < den
    else num < den * Nat.pow 10 guess.natAbs
  if below then guess - 1 else guess

/- Leaves out the zeros at the end. -/
def trimZeros
    (digits : List Char) : List Char :=
  (digits.reverse.dropWhile (· == '0')).reverse

/-
  The first digits of a quotient, rounded, and the power of ten
  of the first one.
-/
def leadingDigits
    (count : Nat)
    (num den : Nat) : List Char × Int :=
  let exponent := leadingExponent num den
  let shift : Int := count - 1 - exponent
  let rounded :=
    if shift < 0 then
      Binary64.roundHalfEven num (den * Nat.pow 10 shift.natAbs)
    else Binary64.roundHalfEven (num * Nat.pow 10 shift.natAbs) den
  if rounded == Nat.pow 10 count then (['1'], exponent + 1)
  else (trimZeros (Nat.toDigits 10 rounded), exponent)

------------------------------------------------------------
-- Text
------------------------------------------------------------

/- Digits written out, given the power of ten of the first one. -/
def writtenOut
    (digits : List Char)
    (exponent : Int) : List Char :=
  if exponent < 0 then
    ['0', '.'] ++ List.replicate (exponent.natAbs - 1) '0' ++ digits
  else
    let whole := exponent.natAbs + 1
    let padding := List.replicate (whole - digits.length) '0'
    let fraction := digits.drop whole
    let point := if fraction.isEmpty then [] else ['.']
    digits.take whole ++ padding ++ point ++ fraction

/- Digits written with an exponent. -/
def withExponent
    (digits : List Char)
    (exponent : Int) : List Char :=
  let fraction := digits.drop 1
  let point := if fraction.isEmpty then [] else ['.']
  let sign := if exponent < 0 then ['e', '-'] else ['e', '+']
  digits.take 1 ++ point ++ fraction ++ sign
    ++ Nat.toDigits 10 exponent.natAbs

/-
  Text of a number with at most `count` significant digits. Zero
  has no sign. A first digit from the fifth decimal place up to
  the fifteenth digit before the point is usual.
-/
def significant
    (count : Nat)
    (x : Float) : String :=
  match Binary64.ofFloat x with
  | .notANumber => "NaN"
  | .infinite negative => if negative then "-inf" else "inf"
  | .finite negative size exponent =>
      if size == 0 then "0"
      else
        let (num, den) := Binary64.quotient size exponent
        let (digits, exponent) := leadingDigits count num den
        let sign := if negative then "-" else ""
        let text :=
          if -5 ≤ exponent && exponent < 15 then
            writtenOut digits exponent
          else withExponent digits exponent
        sign ++ String.ofList text

------------------------------------------------------------
-- Decimal places
------------------------------------------------------------

/- Puts a point before the last `places` digits of a number. -/
def withPoint
    (places : Nat)
    (n : Nat) : String :=
  let row := Nat.toDigits 10 n
  let row := List.replicate (places + 1 - row.length) '0' ++ row
  let whole := row.take (row.length - places)
  let fraction := row.drop (row.length - places)
  let point := if places == 0 then [] else ['.']
  String.ofList (whole ++ point ++ fraction)

/- Text of a number with exactly `places` decimal places. -/
def fixed
    (places : Nat)
    (x : Float) : String :=
  match Binary64.ofFloat x with
  | .notANumber => "NaN"
  | .infinite negative => if negative then "-inf" else "inf"
  | .finite negative significand exponent =>
      let (num, den) := Binary64.quotient significand exponent
      let sign := if negative then "-" else ""
      sign ++ withPoint places
        (Binary64.roundHalfEven (num * Nat.pow 10 places) den)

end FixedPage.Decimal
