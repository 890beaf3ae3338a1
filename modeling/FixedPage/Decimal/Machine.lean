import FixedPage.Decimal.Shortest
import FixedPage.Scalar

/-
  This file makes machine numbers scalars, and rounds them to
  single precision.

  Main declarations:
    * `single`
    * `Scalar Float`
-/

namespace FixedPage

/- The number of single precision that is nearest to a number. -/
def single
    (x : Float) : Float :=
  x.toFloat32.toFloat

namespace Machine

/-
  Length of the vector `(x, y)`. Large and small vectors are
  scaled before their components are squared.
-/
def hypot
    (x y : Float) : Float :=
  let x := x.abs
  let y := y.abs
  if x.isInf || y.isInf then 1.0 / 0.0
  else
    let big := if x < y then y else x
    let small := if x < y then x else y
    if small == 0.0 then big
    else if 1e150 < big || big < 1e-140 then
      let ratio := small / big
      big * (1.0 + ratio * ratio).sqrt
    else
      (big * big + small * small).sqrt

/- The number nearest to a quarter turn in radians. -/
def halfPi : Float :=
  Float.ofBits 0x3FF921FB54442D18

end Machine

instance : Scalar Float where
  zero := 0.0
  one := 1.0
  natCast n := Binary64.nearest false n 1
  lt x y := x < y
  hypot := Machine.hypot
  sin := Float.sin
  cos := Float.cos
  halfPi := Machine.halfPi
  ofDecimal := Binary64.ofDecimal
  truncate x := x.toUInt64.toNat
  text := Decimal.positional

end FixedPage
