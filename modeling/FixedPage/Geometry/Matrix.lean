import FixedPage.Scalar

/-
  This file defines points and affine transformations of the
  page plane. A matrix acts on row vectors, so a product applies
  its left factor first.

  Main declarations:
    * `Point`
    * `Matrix`
    * `Matrix.mul`
    * `Matrix.inverse?`
    * `Matrix.apply`
    * `Matrix.applyVector`
    * `Matrix.length`
-/

namespace FixedPage

/- A point or a vector of the page plane. -/
structure Point (α : Type) where
  x : α
  y : α
deriving DecidableEq, Repr

/-
  The transformation that takes `(x, y)` to
  `(xx * x + xy * y + x0, yx * x + yy * y + y0)`.
-/
structure Matrix (α : Type) where
  xx : α
  yx : α
  xy : α
  yy : α
  x0 : α
  y0 : α
deriving DecidableEq, Repr

namespace Point

variable {α : Type} [Scalar α]

/- The point both of whose coordinates are zero. -/
def origin : Point α :=
  ⟨0, 0⟩

/- Moves a point by a vector. -/
def add
    (p q : Point α) : Point α :=
  ⟨p.x + q.x, p.y + q.y⟩

/- The vector from `q` to `p`. -/
def sub
    (p q : Point α) : Point α :=
  ⟨p.x - q.x, p.y - q.y⟩

end Point

namespace Matrix

variable {α : Type} [Scalar α]

------------------------------------------------------------
-- Elementary transformations
------------------------------------------------------------

/- Leaves every point where it is. -/
def identity : Matrix α :=
  ⟨1, 0, 0, 1, 0, 0⟩

/- Scales both axes. -/
def scaling
    (sx sy : α) : Matrix α :=
  ⟨sx, 0, 0, sy, 0, 0⟩

/- Moves every point by `(tx, ty)`. -/
def shift
    (tx ty : α) : Matrix α :=
  ⟨1, 0, 0, 1, tx, ty⟩

/- Turns the x axis towards the y axis. -/
def rotation
    (radians : α) : Matrix α :=
  let s := Scalar.sin radians
  let c := Scalar.cos radians
  ⟨c, s, -s, c, 0, 0⟩

------------------------------------------------------------
-- Composition
------------------------------------------------------------

/- Applies `m` first, then `n`. -/
def mul
    (m n : Matrix α) : Matrix α where
  xx := n.xx * m.xx + n.xy * m.yx
  yx := n.yx * m.xx + n.yy * m.yx
  xy := n.xx * m.xy + n.xy * m.yy
  yy := n.yx * m.xy + n.yy * m.yy
  x0 := n.xx * m.x0 + n.xy * m.y0 + n.x0
  y0 := n.yx * m.x0 + n.yy * m.y0 + n.y0

/- Factor by which a transformation scales areas. -/
def determinant
    (m : Matrix α) : α :=
  m.xx * m.yy - m.yx * m.xy

/-
  The transformation that undoes `m`. There is none when `m`
  flattens the plane or its determinant is not finite.
-/
def inverse?
    (m : Matrix α) : Option (Matrix α) :=
  let det := m.determinant
  if det == 0 || !Scalar.isFinite det then none
  else
    some
      { xx := m.yy / det
        yx := -m.yx / det
        xy := -m.xy / det
        yy := m.xx / det
        x0 := (m.xy * m.y0 - m.yy * m.x0) / det
        y0 := (m.yx * m.x0 - m.xx * m.y0) / det }

------------------------------------------------------------
-- Action
------------------------------------------------------------

/- Transforms a point. -/
def apply
    (m : Matrix α)
    (p : Point α) : Point α :=
  ⟨m.xx * p.x + m.xy * p.y + m.x0,
    m.yx * p.x + m.yy * p.y + m.y0⟩

/- Transforms a vector, which a shift leaves alone. -/
def applyVector
    (m : Matrix α)
    (v : Point α) : Point α :=
  ⟨m.xx * v.x + m.xy * v.y, m.yx * v.x + m.yy * v.y⟩

/- Length of a vector once it is transformed. -/
def length
    (m : Matrix α)
    (v : Point α) : α :=
  let w := m.applyVector v
  Scalar.hypot w.x w.y

end Matrix

end FixedPage
