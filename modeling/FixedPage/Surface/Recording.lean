import FixedPage.Glyph.Layout
import FixedPage.Paint.Pattern
import FixedPage.Path.Data
import FixedPage.Surface.Stroke

/-
  This file defines the surface that a page is drawn on. It
  records every drawing operation and keeps track of the current
  transformation, so that closed groups know where they lie.

  Opening a group saves the transformation and closing it
  restores it, like a save and a restore.

  Main declarations:
    * `Operation`
    * `Surface`
    * `Surface.save`
    * `Surface.restore`
    * `Surface.pushGroup`
    * `Surface.popGroup`
-/

namespace FixedPage

------------------------------------------------------------
-- Operations
------------------------------------------------------------

/- One drawing operation. -/
inductive Operation (α : Type) where
  | save
  | restore
  | transform
      (matrix : Matrix α)
  | newPath
  | segment
      (segment : Segment α)
  | setFillRule
      (rule : FillRule)
  | clip
  | setSource
      (pattern : Pattern α)
  | fill
      (preserve : Bool)
  | stroke
      (style : StrokeStyle α)
  | paintWithAlpha
      (alpha : α)
  | pushGroup
  | popGroup
      (layer : Layer)
  | mask
      (pattern : Pattern α)
  | showGlyphs
      (matrix : Matrix α)
      (layout : GlyphLayout α)
      (text : String)
deriving DecidableEq, Repr

------------------------------------------------------------
-- Surface
------------------------------------------------------------

/-
  The operations so far, the current transformation, the
  transformations that saves and groups will restore, the
  groups still open, and the number of the next group. Stacks
  have their top first.
-/
structure Surface (α : Type) where
  operations : Array (Operation α)
  ctm : Matrix α
  saved : List (Matrix α)
  groups : List Nat
  nextGroup : Nat

namespace Surface

variable {α : Type} [Scalar α]

/- The surface that nothing was drawn on. -/
def blank : Surface α :=
  ⟨#[], .identity, [], [], 0⟩

omit [Scalar α] in
/- Records an operation that changes no state. -/
def record
    (op : Operation α)
    (s : Surface α) : Surface α :=
  { s with operations := s.operations.push op }

omit [Scalar α] in
/- Remembers the current transformation. -/
def save
    (s : Surface α) : Surface α :=
  { s with saved := s.ctm :: s.saved }.record .save

omit [Scalar α] in
/- Returns to the transformation remembered last, if any. -/
def unsave
    (s : Surface α) : Surface α :=
  match s.saved with
  | [] => s
  | ctm :: saved => { s with ctm := ctm, saved := saved }

omit [Scalar α] in
/- Undoes what happened since the matching save. -/
def restore
    (s : Surface α) : Surface α :=
  s.unsave.record .restore

/- Lets a matrix act before the current transformation. -/
def transform
    (matrix : Matrix α)
    (s : Surface α) : Surface α :=
  { s with ctm := matrix.mul s.ctm }.record (.transform matrix)

/- Scales what is drawn from now on. -/
def scale
    (sx sy : α)
    (s : Surface α) : Surface α :=
  s.transform (.scaling sx sy)

/- Moves what is drawn from now on. -/
def translate
    (tx ty : α)
    (s : Surface α) : Surface α :=
  s.transform (.shift tx ty)

omit [Scalar α] in
/- Drops the current path. -/
def newPath
    (s : Surface α) : Surface α :=
  s.record .newPath

omit [Scalar α] in
/- Takes one step of a path. -/
def take
    (s : Surface α) :
    PathStep α → Surface α
| .draw segment => s.record (.segment segment)
| .rule rule => s.record (.setFillRule rule)

omit [Scalar α] in
/- Takes several steps of a path in order. -/
def takeAll
    (steps : List (PathStep α))
    (s : Surface α) : Surface α :=
  steps.foldl take s

/- Adds a closed rectangle to the current path. -/
def rectangle
    (r : Rectangle α)
    (s : Surface α) : Surface α :=
  s.takeAll ((PathBuilder.rectangle r).map .draw)

omit [Scalar α] in
/- Narrows the clip to the current path and drops the path. -/
def clip
    (s : Surface α) : Surface α :=
  s.record .clip

omit [Scalar α] in
/- Opens an offscreen group. -/
def pushGroup
    (s : Surface α) : Surface α :=
  { s with
    saved := s.ctm :: s.saved
    groups := s.nextGroup :: s.groups
    nextGroup := s.nextGroup + 1 }.record .pushGroup

omit [Scalar α] in
/- The layer that closing a group now would give. -/
def topLayer
    (s : Surface α) : Layer :=
  match s.groups with
  | [] => .unmatched
  | id :: _ => .group id

omit [Scalar α] in
/- Closes the innermost group. -/
def closeGroup
    (s : Surface α) : Surface α :=
  ({ s with groups := s.groups.tail }.unsave).record
    (.popGroup s.topLayer)

omit [Scalar α] in
/-
  Closes the innermost group. Its content becomes a pattern
  placed by the transformation that is restored.
-/
def popGroup
    (s : Surface α) : Pattern α × Surface α :=
  let closed := s.closeGroup
  (⟨.layer s.topLayer, .none, closed.ctm⟩, closed)

omit [Scalar α] in
/- Paints with a pattern from now on. -/
def setSource
    (pattern : Pattern α)
    (s : Surface α) : Surface α :=
  s.record (.setSource pattern)

omit [Scalar α] in
/- Closes the innermost group and paints with it from now on. -/
def popGroupToSource
    (s : Surface α) : Surface α :=
  let (pattern, closed) := s.popGroup
  closed.setSource pattern

/- Draws path data up to its end or its fault. -/
def drawData
    (data : String)
    (s : Surface α) : Option PathData.Fault × Surface α :=
  let trace : PathData.Trace α := PathData.trace data
  (trace.fault?, s.takeAll trace.steps)

end Surface

end FixedPage
