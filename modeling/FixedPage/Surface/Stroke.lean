import FixedPage.Scalar

/-
  This file defines how lines are stroked.

  Main declarations:
    * `LineCap`
    * `LineJoin`
    * `StrokeStyle`
-/

namespace FixedPage

/- Shape of the ends of a line. -/
inductive LineCap where
  | butt
  | round
  | square
deriving DecidableEq, Repr

/- Reads a line cap; unknown and triangular caps are butt. -/
def LineCap.ofName : String → LineCap
| "Round" => .round
| "Square" => .square
| _ => .butt

/- Shape of the corners of a line. -/
inductive LineJoin where
  | miter
  | bevel
  | round
deriving DecidableEq, Repr

/- Reads a line join; unknown joins are miter. -/
def LineJoin.ofName : String → LineJoin
| "Bevel" => .bevel
| "Round" => .round
| _ => .miter

/- Everything a surface needs to stroke a path. -/
structure StrokeStyle (α : Type) where
  width : α
  dash : List α
  dashOffset : α
  cap : LineCap
  join : LineJoin
  miterLimit : α
deriving DecidableEq, Repr

/- The style of a path that asks for none. -/
def StrokeStyle.standard
    {α : Type}
    [Scalar α] : StrokeStyle α where
  width := 1
  dash := []
  dashOffset := 0
  cap := .butt
  join := .miter
  miterLimit := Nat.cast 10

end FixedPage
