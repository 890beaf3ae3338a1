/-
  This file relates machine numbers to exact ones. A finite
  number is a significand times a power of two; a quotient of
  natural numbers is rounded to the nearest machine number,
  halves to the even significand.

  Main declarations:
    * `Binary64`
    * `Binary64.ofFloat`
    * `Binary64.nearest`
-/

namespace FixedPage

/-
  The exact value of a machine number: `finite s m q` is
  `m * 2 ^ q`, negated when `s`.
-/
inductive Binary64 where
  | finite
      (negative : Bool)
      (significand : Nat)
      (exponent : Int)
  | infinite
      (negative : Bool)
  | notANumber
deriving DecidableEq, Repr

namespace Binary64

------------------------------------------------------------
-- Decoding
------------------------------------------------------------

/- Decodes the fields of a 64-bit word. -/
def ofBits
    (word : Nat) : Binary64 :=
  let negative : Bool := word / Nat.pow 2 63 % 2 == 1
  let field : Nat := word / Nat.pow 2 52 % Nat.pow 2 11
  let fraction : Nat := word % Nat.pow 2 52
  if field == 2047 then
    if fraction == 0 then .infinite negative else .notANumber
  else if field == 0 then
    .finite negative fraction (-1074)
  else
    .finite negative (Nat.pow 2 52 + fraction) ((field : Int) - 1075)

/- The exact value of a machine number. -/
def ofFloat
    (x : Float) : Binary64 :=
  ofBits x.toBits.toNat

/-
  `m * 2 ^ q` as a quotient of natural numbers.
-/
def quotient
    (significand : Nat)
    (exponent : Int) : Nat × Nat :=
  if exponent < 0 then
    (significand, Nat.pow 2 exponent.natAbs)
  else
    (significand * Nat.pow 2 exponent.natAbs, 1)

------------------------------------------------------------
-- Rounding
------------------------------------------------------------

/- Rounds a quotient to the nearest integer, halves to even. -/
def roundHalfEven
    (num den : Nat) : Nat :=
  let floor := num / den
  let twice := 2 * (num % den)
  if twice < den then floor
  else if den < twice then floor + 1
  else if floor % 2 == 0 then floor
  else floor + 1

/-
  The word of the positive machine number nearest to
  `num / den`. The exponent is the smallest one, not below
  that of the smallest machine number, that leaves at most 53
  significant bits.
-/
def nearestWord
    (num den : Nat) : Nat :=
  let guess : Int := (num.log2 : Int) - (den.log2 : Int) - 53
  let scaled := fun (exponent : Int) =>
    if exponent < 0 then
      (num * Nat.pow 2 exponent.natAbs, den)
    else
      (num, den * Nat.pow 2 exponent.natAbs)
  let start := max guess (-1074)
  let exponent :=
    let (n, d) := scaled start
    if n / d < Nat.pow 2 53 then start else start + 1
  let (n, d) := scaled exponent
  let rounded := roundHalfEven n d
  let (significand, exponent) :=
    if rounded == Nat.pow 2 53 then (Nat.pow 2 52, exponent + 1)
    else (rounded, exponent)
  if significand < Nat.pow 2 52 then significand
  else if 971 < exponent then 2047 * Nat.pow 2 52
  else
    (exponent + 1075).toNat * Nat.pow 2 52
      + (significand - Nat.pow 2 52)

/- The machine number nearest to `num / den`. -/
def nearest
    (negative : Bool)
    (num den : Nat) : Float :=
  let word := if num == 0 then 0 else nearestWord num den
  let word := if negative then word + Nat.pow 2 63 else word
  Float.ofBits word.toUInt64

/- Number of decimal digits of a natural number. -/
def digitCount
    (n : Nat) : Nat :=
  (Nat.toDigits 10 n).length

/-
  The machine number nearest to `digits * 10 ^ exponent`.
  Numerals far outside the range of machine numbers are
  decided by their magnitude alone.
-/
def ofDecimal
    (negative : Bool)
    (digits : Nat)
    (exponent : Int) : Float :=
  if digits == 0 then nearest negative 0 1
  else
    let magnitude := exponent + digitCount digits
    if 400 < magnitude then
      nearest negative (Nat.pow 2 1100) 1
    else if magnitude < -400 then
      nearest negative 0 1
    else if exponent < 0 then
      nearest negative digits (Nat.pow 10 exponent.natAbs)
    else
      nearest negative (digits * Nat.pow 10 exponent.natAbs) 1

end Binary64

end FixedPage
