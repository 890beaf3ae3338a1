import FixedPage.Bytes
import FixedPage.Decimal.Machine

/-
  This file defines amounts between zero and one that are kept
  in words of 16 bits, and interpolation between such words; and
  the curves of color profiles. A curve is given by samples or by
  a formula.

  Main declarations:
    * `UnitWord.ofFloat`
    * `UnitWord.toFloat`
    * `UnitWord.locate`
    * `UnitWord.mix`
    * `Curve`
    * `Curve.value`
    * `Curve.read?`
    * `Curve.readSeveral?`
-/

namespace FixedPage

------------------------------------------------------------
-- Words
------------------------------------------------------------

namespace UnitWord

/- The word of the amount one. -/
def most : Nat :=
  0xFFFF

/- The word nearest to an amount, which is first clamped. -/
def ofFloat
    (x : Float) : Nat :=
  let scaled := x * 65535.0 + 0.5
  if 65535.0 ≤ scaled then most
  else if 0.0 < scaled then scaled.toUInt64.toNat
  else 0

/- The amount that a word stands for. -/
def toFloat
    (n : Nat) : Float :=
  single (Nat.toFloat n / 65535.0)

/- The word of an amount that is given by a byte. -/
def ofByte
    (b : UInt8) : Nat :=
  257 * b.toNat

/-
  Where a word lies among samples that are numbered from zero to
  `last`: the sample before it, and the part of the way to the
  next one in steps of `1 / 65536`.
-/
def locate
    (last n : Nat) : Nat × Nat :=
  let place := last * n
  let fixed := place + (place + 0x7FFF) / most
  (fixed / 0x10000, fixed % 0x10000)

/- The word some part of the way from a word to another one. -/
def mix
    (part low high : Nat) : Nat :=
  let way : Int := ((high : Int) - low) * part + 0x8000
  (((low : Int) + way / 0x10000) % 0x10000).toNat

end UnitWord

------------------------------------------------------------
-- Values
------------------------------------------------------------

/-
  A curve. With parameters `g a b`, most formulas raise
  `a * x + b` to the power `g`.
-/
inductive Curve where
  | sampled
      (words : Array Nat)
  | power
      (g : Float)
  | shifted
      (g a b : Float)
  | raised
      (g a b c : Float)
  | split
      (g a b c d e f : Float)

namespace Curve

/- A factor that is as good as zero. -/
def isFlat
    (a : Float) : Bool :=
  a.abs < 0.0001

/- A power whose base must be positive. -/
def powerOr
    (otherwise base g : Float) : Float :=
  if 0 < base then base.pow g else otherwise

/- The word on a sampled curve, linear between the samples. -/
def sample
    (words : Array Nat)
    (n : Nat) : Nat :=
  let last := words.size - 1
  if n == UnitWord.most || last == 0 then words.getD last 0
  else
    let (i, part) := UnitWord.locate last n
    UnitWord.mix part (words.getD i 0) (words.getD (i + 1) 0)

/- The value of a curve before it is rounded. -/
def exactValue
    (curve : Curve)
    (x : Float) : Float :=
  match curve with
  | .sampled words =>
      UnitWord.toFloat (sample words (UnitWord.ofFloat x))
  | .power g =>
      if 0 ≤ x then x.pow g
      else if isFlat (g - 1) then x
      else 0
  | .shifted g a b =>
      if isFlat a || x < -b / a then 0
      else powerOr 0 (a * x + b) g
  | .raised g a b c =>
      let start := if -b / a < 0 then 0 else -b / a
      let base := a * x + b
      if isFlat a then 0
      else if x < start then c
      else if 0 < base then base.pow g + c
      else 0
  | .split g a b c d e f =>
      if d ≤ x then powerOr 0 (a * x + b) g + e
      else c * x + f

/- The value of a curve. -/
def value
    (curve : Curve)
    (x : Float) : Float :=
  single (curve.exactValue x)

------------------------------------------------------------
-- Reading
------------------------------------------------------------

/- Names of the two kinds of curves, read as numbers. -/
def nameSamples : Nat := 0x63757276
def nameFormula : Nat := 0x70617261

/- Most samples that a curve may have. -/
def maxSamples : Nat :=
  0x7FFF

/- A number with a sign, in steps of `1 / 65536`. -/
def fraction?
    (file : Bytes)
    (offset : Nat) : Option Float :=
  (file.long? offset).map fun n =>
    Float.ofInt (Int.bmod n (Nat.pow 2 32)) / 65536.0

/- Several such numbers. -/
def fractions?
    (file : Bytes)
    (offset count : Nat) : Option (List Float) :=
  (List.range count).mapM fun i => fraction? file (offset + 4 * i)

/- Number of parameters of a numbered formula. -/
def parameterCount? : Nat → Option Nat
| 0 => some 1
| 1 => some 3
| 2 => some 4
| 3 => some 5
| 4 => some 7
| _ => none

/- The formula of some parameters. -/
def ofParameters? : List Float → Option Curve
| [g] => some (.power g)
| [g, a, b] => some (.shifted g a b)
| [g, a, b, c] => some (.raised g a b c)
| [g, a, b, c, d] => some (.split g a b c d 0 0)
| [g, a, b, c, d, e, f] => some (.split g a b c d e f)
| _ => none

/- Reads a formula; gives the curve and where it ends. -/
def readFormula?
    (file : Bytes)
    (offset : Nat) : Option (Curve × Nat) := do
  let number ← file.word? (offset + 8)
  let count ← parameterCount? number
  let parameters ← fractions? file (offset + 12) count
  let curve ← ofParameters? parameters
  pure (curve, offset + 12 + 4 * count)

/-
  Reads samples. None stand for a straight line, and one gives
  an exponent in steps of `1 / 256`.
-/
def readSamples?
    (file : Bytes)
    (offset : Nat) : Option (Curve × Nat) := do
  let count ← file.long? (offset + 8)
  let start := offset + 12
  if count == 0 then pure (.power 1, start)
  else if maxSamples < count then none
  else
    let words ← file.words? start count
    let curve :=
      if count == 1 then
        .power (Nat.toFloat (words.getD 0 0) / 256.0)
      else .sampled words
    pure (curve, start + 2 * count)

/- Reads a curve of either kind. -/
def read?
    (file : Bytes)
    (offset : Nat) : Option (Curve × Nat) := do
  let name ← file.long? offset
  if name == nameSamples then readSamples? file offset
  else if name == nameFormula then readFormula? file offset
  else none

/-
  Reads curves that follow each other; each ends at a multiple
  of four bytes.
-/
def readSeveral?
    (file : Bytes) :
    Nat → Nat → Option (List Curve)
| 0, _ => some []
| n + 1, offset => do
    let (curve, after) ← read? file offset
    let next := (after + 3) / 4 * 4
    let _ ← file.slice? after (next - after)
    let rest ← readSeveral? file n next
    pure (curve :: rest)

end Curve

end FixedPage
