/-
  This file measures outlines. An outline is drawn with straight
  lines and curves; the space it takes reaches around all of its
  points, also those that only bend a curve.

  Main declarations:
    * `OutlinePoint`
    * `OutlineTransform`
    * `OutlineExtent`
    * `OutlineBox`
    * `OutlineExtent.box?`
-/

namespace FixedPage

------------------------------------------------------------
-- Points
------------------------------------------------------------

/- A point in font units, the y axis pointing up. -/
structure OutlinePoint where
  x : Float32
  y : Float32

/- The point halfway between two points. -/
def OutlinePoint.middle
    (p q : OutlinePoint) : OutlinePoint :=
  ⟨p.x + 0.5 * (q.x - p.x), p.y + 0.5 * (q.y - p.y)⟩

/- A linear map of the plane followed by a shift. -/
structure OutlineTransform where
  xx : Float32
  yx : Float32
  xy : Float32
  yy : Float32
  x0 : Float32
  y0 : Float32

namespace OutlineTransform

/- The transform that changes nothing. -/
def identity : OutlineTransform :=
  ⟨1, 0, 0, 1, 0, 0⟩

/- A shift. -/
def shift
    (x y : Float32) : OutlineTransform :=
  ⟨1, 0, 0, 1, x, y⟩

/- The transform that applies `s` first and then `t`. -/
def after
    (t s : OutlineTransform) : OutlineTransform where
  xx := t.xx * s.xx + t.xy * s.yx
  yx := t.yx * s.xx + t.yy * s.yx
  xy := t.xx * s.xy + t.xy * s.yy
  yy := t.yx * s.xy + t.yy * s.yy
  x0 := t.xx * s.x0 + t.xy * s.y0 + t.x0
  y0 := t.yx * s.x0 + t.yy * s.y0 + t.y0

/- Moves a point. -/
def apply
    (t : OutlineTransform)
    (p : OutlinePoint) : OutlinePoint :=
  ⟨t.xx * p.x + t.xy * p.y + t.x0, t.yx * p.x + t.yy * p.y + t.y0⟩

end OutlineTransform

------------------------------------------------------------
-- Extents
------------------------------------------------------------

/- The space that the points of an outline take. -/
structure OutlineExtent where
  left : Float32
  bottom : Float32
  right : Float32
  top : Float32

/- A box of whole font units, the y axis pointing up. -/
structure OutlineBox where
  left : Int
  bottom : Int
  right : Int
  top : Int
deriving DecidableEq, Repr

namespace OutlineExtent

/- The space that a single point takes. -/
def ofPoint
    (p : OutlinePoint) : OutlineExtent :=
  ⟨p.x, p.y, p.x, p.y⟩

/- The space that reaches to a further point. -/
def reach
    (e : OutlineExtent)
    (p : OutlinePoint) : OutlineExtent where
  left := if p.x < e.left then p.x else e.left
  bottom := if p.y < e.bottom then p.y else e.bottom
  right := if e.right < p.x then p.x else e.right
  top := if e.top < p.y then p.y else e.top

/- The space that also takes in some points. -/
def cover
    (e? : Option OutlineExtent)
    (points : List OutlinePoint) : Option OutlineExtent :=
  points.foldl (fun e? p =>
    match e? with
    | some e => some (e.reach p)
    | none => some (ofPoint p)) e?

/- A whole number of two bytes without the fraction of a number. -/
def whole?
    (v : Float32) : Option Int :=
  if -32769 < v && v < 32768 then some v.toInt32.toInt else none

/- The box of an outline whose sides are numbers of two bytes. -/
def box?
    (e : OutlineExtent) : Option OutlineBox := do
  let left ← whole? e.left
  let bottom ← whole? e.bottom
  let right ← whole? e.right
  let top ← whole? e.top
  pure ⟨left, bottom, right, top⟩

end OutlineExtent

end FixedPage
