import FixedPage.Geometry.Rectangle

/-
  This file defines the primitive steps that draw a path and the
  builder that collects them, so that a path can be measured
  before it is drawn.

  Main declarations:
    * `FillRule`
    * `Segment`
    * `PathStep`
    * `PathBuilder`
    * `PathBuilder.extents?`
    * `PathBuilder.currentPoint?`
    * `PathBuilder.steps`
-/

namespace FixedPage

------------------------------------------------------------
-- Steps
------------------------------------------------------------

/- Which points of the plane lie inside a path. -/
inductive FillRule where
  | evenOdd
  | nonZero
deriving DecidableEq, Repr, Inhabited

/- Reads a fill rule; unknown names mean even-odd. -/
def FillRule.ofName
    (name : String) : FillRule :=
  if name == "NonZero" then .nonZero else .evenOdd

/- One piece of a path. -/
inductive Segment (α : Type) where
  | moveTo
      (p : Point α)
  | lineTo
      (p : Point α)
  | curveTo
      (p₁ p₂ p₃ : Point α)
  | close
deriving DecidableEq, Repr

/- The points that a segment mentions. -/
def Segment.points
    {α : Type} : Segment α → List (Point α)
| .moveTo p => [p]
| .lineTo p => [p]
| .curveTo p₁ p₂ p₃ => [p₁, p₂, p₃]
| .close => []

/- What path data asks for: a segment or a fill rule. -/
inductive PathStep (α : Type) where
  | draw
      (s : Segment α)
  | rule
      (r : FillRule)
deriving DecidableEq, Repr

------------------------------------------------------------
-- Builder
------------------------------------------------------------

/-
  The segments of a path, the last one first, and the fill
  rule that the path data set last.
-/
structure PathBuilder (α : Type) where
  recent : List (Segment α)
  fillRule? : Option FillRule
deriving DecidableEq, Repr

namespace PathBuilder

variable {α : Type}

/- The path without segments. -/
def empty : PathBuilder α :=
  ⟨[], none⟩

/- Segments in the order they were added. -/
def segments
    (b : PathBuilder α) : List (Segment α) :=
  b.recent.reverse

/- Adds a segment. -/
def push
    (b : PathBuilder α)
    (s : Segment α) : PathBuilder α :=
  { b with recent := s :: b.recent }

/- Takes one step of path data. -/
def take
    (b : PathBuilder α) :
    PathStep α → PathBuilder α
| .draw s => b.push s
| .rule r => { b with fillRule? := some r }

/- Takes several steps in order. -/
def takeAll
    (b : PathBuilder α)
    (steps : List (PathStep α)) : PathBuilder α :=
  steps.foldl take b

/- No segment has been added. -/
def isEmpty
    (b : PathBuilder α) : Bool :=
  b.recent.isEmpty

/-
  The steps that draw the path again, its fill rule first.
-/
def steps
    (b : PathBuilder α) : List (PathStep α) :=
  (b.fillRule?.map PathStep.rule).toList
    ++ b.segments.map PathStep.draw

/-
  The smallest box around every point the path mentions,
  control points included.
-/
def extents?
    [Scalar α]
    (b : PathBuilder α) : Option (Rectangle α) :=
  Rectangle.bounding? (b.segments.flatMap Segment.points)

/-
  Looks for the current point among segments listed from the
  last to the first. After a close, only the start of the
  subpath counts.
-/
def lookBack
    (closing : Bool) :
    List (Segment α) → Option (Point α)
| [] => none
| .close :: rest => lookBack true rest
| .moveTo p :: _ => some p
| .lineTo p :: rest =>
    if closing then lookBack closing rest else some p
| .curveTo _ _ p :: rest =>
    if closing then lookBack closing rest else some p

/- End point of the last segment. -/
def currentPoint?
    (b : PathBuilder α) : Option (Point α) :=
  lookBack false b.recent

/- Adds a closed rectangle. -/
def rectangle
    [Scalar α]
    (r : Rectangle α) : List (Segment α) :=
  match r.corners with
  | first :: rest =>
      .moveTo first :: rest.map .lineTo ++ [.close]
  | [] => []

end PathBuilder

end FixedPage
