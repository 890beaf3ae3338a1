import FixedPage.Geometry.Matrix

/-
  This file defines boxes whose sides are parallel to the axes.

  Main declarations:
    * `Rectangle`
    * `Rectangle.inflated`
    * `Rectangle.bounding?`
-/

namespace FixedPage

/- A box given by one corner and the vector to the other. -/
structure Rectangle (α : Type) where
  x : α
  y : α
  width : α
  height : α
deriving DecidableEq, Repr

namespace Rectangle

variable {α : Type} [Scalar α]

/- Scales corner and size on each axis. -/
def scaled
    (r : Rectangle α)
    (sx sy : α) : Rectangle α :=
  ⟨r.x * sx, r.y * sy, r.width * sx, r.height * sy⟩

/- Grows a box by the same margin on every side. -/
def inflated
    (r : Rectangle α)
    (margin : α) : Rectangle α :=
  let two : α := Nat.cast 2
  ⟨r.x - margin, r.y - margin,
    r.width + two * margin, r.height + two * margin⟩

------------------------------------------------------------
-- Bounding boxes
------------------------------------------------------------

/- The least and greatest coordinates seen so far. -/
structure Bounds (α : Type) where
  least : Point α
  greatest : Point α

/- Extends bounds to one more point. -/
def Bounds.include
    (b : Bounds α)
    (p : Point α) : Bounds α where
  least := ⟨Scalar.min b.least.x p.x, Scalar.min b.least.y p.y⟩
  greatest :=
    ⟨Scalar.max b.greatest.x p.x, Scalar.max b.greatest.y p.y⟩

/- The box with the given extreme coordinates. -/
def Bounds.box
    (b : Bounds α) : Rectangle α :=
  ⟨b.least.x, b.least.y,
    b.greatest.x - b.least.x, b.greatest.y - b.least.y⟩

/- The smallest box around some points, if there are any. -/
def bounding? : List (Point α) → Option (Rectangle α)
| [] => none
| p :: points =>
    some (points.foldl Bounds.include ⟨p, p⟩).box

/- Corners of a box in drawing order. -/
def corners
    (r : Rectangle α) : List (Point α) :=
  [⟨r.x, r.y⟩, ⟨r.x + r.width, r.y⟩,
    ⟨r.x + r.width, r.y + r.height⟩, ⟨r.x, r.y + r.height⟩]

end Rectangle

end FixedPage
