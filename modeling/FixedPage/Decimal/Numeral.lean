import FixedPage.Scalar

/-
  This file reads decimal numerals: an optional sign followed by
  digits with at most one point and an optional exponent, or by
  one of the words for infinity and not-a-number.

  Main declarations:
    * `digitValue`
    * `natOfDigits`
    * `Numeral.read?`
-/

namespace FixedPage

------------------------------------------------------------
-- Digits
------------------------------------------------------------

namespace Decimal

/- Value of a decimal digit. -/
def digitValue
    (c : Char) : Nat :=
  c.toNat - '0'.toNat

/- Value of a row of decimal digits. -/
def natOfDigits
    (cs : List Char) : Nat :=
  cs.foldl (fun n c => 10 * n + digitValue c) 0

/- Splits off the sign of a numeral; true for a minus. -/
def cutSign : List Char → Bool × List Char
| '+' :: rest => (false, rest)
| '-' :: rest => (true, rest)
| cs => (false, cs)

/- Reads the exponent that follows the digits of a numeral. -/
def exponent? : List Char → Option Int
| [] => some 0
| c :: rest =>
    if c == 'e' || c == 'E' then
      let (negative, digits) := cutSign rest
      if digits.isEmpty || !digits.all Char.isDigit then none
      else if negative then some (-(natOfDigits digits : Int))
      else some (natOfDigits digits)
    else none

end Decimal

------------------------------------------------------------
-- Numerals
------------------------------------------------------------

namespace Numeral

open Decimal

/- Reads an unsigned numeral made of digits. -/
def readDigits?
    (negative : Bool)
    (cs : List Char) : Option Numeral :=
  let whole := cs.takeWhile Char.isDigit
  let rest := cs.dropWhile Char.isDigit
  let (fraction, rest) :=
    match rest with
    | '.' :: tail =>
        (tail.takeWhile Char.isDigit, tail.dropWhile Char.isDigit)
    | _ => ([], rest)
  if whole.isEmpty && fraction.isEmpty then none
  else
    (exponent? rest).map fun exponent =>
      .decimal negative (natOfDigits (whole ++ fraction))
        (exponent - fraction.length)

/- Reads a whole text as a numeral. -/
def read?
    (cs : List Char) : Option Numeral :=
  let (negative, body) := cutSign cs
  let word := body.map Char.toLower
  if word == "inf".toList || word == "infinity".toList then
    some (.infinite negative)
  else if word == "nan".toList then
    some .notANumber
  else
    readDigits? negative body

end Numeral

/- Reads a whole text as a scalar. -/
def Scalar.read?
    {α : Type}
    [Scalar α]
    (cs : List Char) : Option α :=
  (Numeral.read? cs).map Scalar.ofNumeral

end FixedPage
