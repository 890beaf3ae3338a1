import FixedPage.Proofs.Resource.Recorded
import FixedPage.Proofs.Value.Normalized
import FixedPage.Render.Opening.Path

/-
  This file defines geometries whose figures are given as
  elements, as they are marked up and as they are read. What is
  read is the same for the markup of an entry.

  Main declarations:
    * `GeometryMarkup`
    * `GeometryMarkup.figures?`
    * `FigureShape`
    * `FigureShape.builder?`
-/

namespace FixedPage

open Markup

variable {α : Type} [Scalar α]

------------------------------------------------------------
-- Markup
------------------------------------------------------------

/- The segments of figures, but for arcs. -/
inductive SegmentKind where
  | line
  | cubic
  | quadratic
deriving DecidableEq, Repr

/- The element of a segment. -/
def SegmentKind.element : SegmentKind → String
| .line => "PolyLineSegment"
| .cubic => "PolyBezierSegment"
| .quadratic => "PolyQuadraticBezierSegment"

/- A segment that is marked up. -/
structure SegmentMarkup where
  kind : SegmentKind
  attributes : List Attribute
  distinct : Distinct attributes

/- A figure that is marked up. -/
structure FigureMarkup where
  attributes : List Attribute
  distinct : Distinct attributes
  segments : List SegmentMarkup

/-
  A geometry that is marked up as figures. It is not
  transformed, and its figures are not given as path data.
-/
structure GeometryMarkup where
  attributes : List Attribute
  distinct : Distinct attributes
  noFigures : "Figures" ∉ attributes.map Attribute.name
  noTransform : "Transform" ∉ attributes.map Attribute.name
  figures : List FigureMarkup

/- The tags of a segment. -/
def SegmentMarkup.events
    (s : SegmentMarkup) : List Event :=
  [.startTag s.kind.element s.attributes, .endTag s.kind.element]

/- The tags of a figure. -/
def FigureMarkup.events
    (f : FigureMarkup) : List Event :=
  .startTag "PathFigure" f.attributes
    :: (f.segments.flatMap SegmentMarkup.events
      ++ [.endTag "PathFigure"])

/- The tags inside a geometry. -/
def GeometryMarkup.inner
    (g : GeometryMarkup) : List Event :=
  g.figures.flatMap FigureMarkup.events

/- The tags of a geometry. -/
def GeometryMarkup.events
    (g : GeometryMarkup) : List Event :=
  .startTag "PathGeometry" g.attributes
    :: (g.inner ++ [.endTag "PathGeometry"])

/- The name of the element of a segment is a name. -/
theorem isName_element
    (kind : SegmentKind) :
    IsName kind.element := by
  cases kind <;> decide

/- The tags of segments are nested. -/
theorem wellNested_segments
    (segments : List SegmentMarkup) :
    WellNested (segments.flatMap SegmentMarkup.events) := by
  induction segments with
  | nil => exact .nil
  | cons s rest ih =>
      exact .element (isName_element s.kind) s.distinct .nil ih

/- The tags inside a geometry are nested. -/
theorem GeometryMarkup.wellNested
    (g : GeometryMarkup) :
    WellNested g.inner := by
  unfold inner
  induction g.figures with
  | nil => exact .nil
  | cons f rest ih =>
      rw [List.flatMap_cons]
      refine WellNested.append ?_ ih
      exact
        .element (by decide) f.distinct
          (wellNested_segments f.segments) .nil

------------------------------------------------------------
-- Shapes
------------------------------------------------------------

/- A segment as it is read. -/
structure SegmentShape (α : Type) where
  kind : SegmentKind
  points : List (Point α)
  stroked : Bool
deriving DecidableEq, Repr

/- A figure as it is read. -/
structure FigureShape (α : Type) where
  start : Point α
  closed : Bool
  filled : Bool
  segments : List (SegmentShape α)
deriving DecidableEq, Repr

/- Value of a flag, which is known if it is not given. -/
def flag?
    (attributes : List Attribute)
    (name : String)
    (known : Bool) : Option Bool :=
  match valueOf? attributes name with
  | some value => Value.boolean? value
  | none => some known

/- Reads a segment. -/
def SegmentMarkup.shape?
    (s : SegmentMarkup) : Option (SegmentShape α) := do
  let value ← valueOf? s.attributes "Points"
  let points ← Value.points? value
  let stroked ← flag? s.attributes "IsStroked" true
  pure ⟨s.kind, points, stroked⟩

/- Reads a figure. -/
def FigureMarkup.shape?
    (f : FigureMarkup) : Option (FigureShape α) := do
  let value ← valueOf? f.attributes "StartPoint"
  let start ← Value.point? value
  let closed ← flag? f.attributes "IsClosed" false
  let filled ← flag? f.attributes "IsFilled" true
  let segments ← f.segments.mapM SegmentMarkup.shape?
  pure ⟨start, closed, filled, segments⟩

/- Reads the figures of a geometry. -/
def GeometryMarkup.figures?
    (g : GeometryMarkup) : Option (List (FigureShape α)) :=
  g.figures.mapM FigureMarkup.shape?

/- The fill rule of a geometry is not the usual one. -/
def GeometryMarkup.nonZero
    (g : GeometryMarkup) : Bool :=
  valueOf? g.attributes "FillRule" == some "NonZero"

omit [Scalar α] in
/- A row is read if its first member and the others are read. -/
theorem mapM_cons_eq_some
    {β γ : Type}
    {f : β → Option γ}
    {x : β}
    {xs : List β}
    {ys : List γ} :
    (x :: xs).mapM f = some ys ↔
      ∃ y rest,
        f x = some y ∧ xs.mapM f = some rest ∧ ys = y :: rest := by
  rw [List.mapM_cons]
  constructor
  · intro hAll
    rcases Option.bind_eq_some_iff.mp hAll with ⟨y, hFirst, hRow⟩
    rcases Option.bind_eq_some_iff.mp hRow with ⟨rest, hRest, hCons⟩
    cases hCons
    exact ⟨y, rest, hFirst, hRest, rfl⟩
  · rintro ⟨y, rest, hFirst, hRest, rfl⟩
    rw [hFirst, hRest]
    rfl

omit [Scalar α] in
/- A row is read if each of its members is. -/
theorem exists_mapM_iff
    {β γ : Type}
    {f : β → Option γ}
    {xs : List β} :
    (∃ ys, xs.mapM f = some ys) ↔ ∀ x ∈ xs, ∃ y, f x = some y := by
  induction xs with
  | nil => exact ⟨fun _ => nofun, fun _ => ⟨[], rfl⟩⟩
  | cons x xs ih =>
      rw [List.forall_mem_cons, ← ih]
      constructor
      · rintro ⟨ys, hAll⟩
        rcases mapM_cons_eq_some.mp hAll with
          ⟨y, rest, hFirst, hRest, rfl⟩
        exact ⟨⟨y, hFirst⟩, rest, hRest⟩
      · rintro ⟨⟨y, hFirst⟩, rest, hRest⟩
        exact
          ⟨_, mapM_cons_eq_some.mpr ⟨y, rest, hFirst, hRest, rfl⟩⟩

/- A segment is read from its points and its flag. -/
theorem SegmentMarkup.shape?_eq_some
    {s : SegmentMarkup}
    {shape : SegmentShape α} :
    s.shape? = some shape ↔
      ∃ value,
        valueOf? s.attributes "Points" = some value ∧
          Value.points? value = some shape.points ∧
          flag? s.attributes "IsStroked" true = some shape.stroked ∧
          s.kind = shape.kind := by
  constructor
  · intro hShape
    rcases Option.bind_eq_some_iff.mp hShape with
      ⟨value, hValue, hRest⟩
    rcases Option.bind_eq_some_iff.mp hRest with
      ⟨points, hPoints, hRest⟩
    rcases Option.bind_eq_some_iff.mp hRest with
      ⟨stroked, hStroked, hSome⟩
    cases hSome
    exact ⟨value, hValue, hPoints, hStroked, rfl⟩
  · rintro ⟨value, hValue, hPoints, hStroked, hKind⟩
    unfold SegmentMarkup.shape?
    rw [hValue, Option.bind_eq_bind, Option.bind_some, hPoints,
      Option.bind_eq_bind, Option.bind_some, hStroked, hKind]
    rfl

/- A figure is read from its attributes and its segments. -/
theorem FigureMarkup.shape?_eq_some
    {f : FigureMarkup}
    {shape : FigureShape α} :
    f.shape? = some shape ↔
      ∃ value,
        valueOf? f.attributes "StartPoint" = some value ∧
          Value.point? value = some shape.start ∧
          flag? f.attributes "IsClosed" false = some shape.closed ∧
          flag? f.attributes "IsFilled" true = some shape.filled ∧
          f.segments.mapM SegmentMarkup.shape? =
            some shape.segments := by
  constructor
  · intro hShape
    rcases Option.bind_eq_some_iff.mp hShape with
      ⟨value, hValue, hRest⟩
    rcases Option.bind_eq_some_iff.mp hRest with
      ⟨start, hStart, hRest⟩
    rcases Option.bind_eq_some_iff.mp hRest with
      ⟨closed, hClosed, hRest⟩
    rcases Option.bind_eq_some_iff.mp hRest with
      ⟨filled, hFilled, hRest⟩
    rcases Option.bind_eq_some_iff.mp hRest with
      ⟨segments, hSegments, hSome⟩
    cases hSome
    exact ⟨value, hValue, hStart, hClosed, hFilled, hSegments⟩
  · rintro ⟨value, hValue, hStart, hClosed, hFilled, hSegments⟩
    unfold FigureMarkup.shape?
    rw [hValue, Option.bind_eq_bind, Option.bind_some, hStart,
      Option.bind_eq_bind, Option.bind_some, hClosed,
      Option.bind_eq_bind, Option.bind_some, hFilled,
      Option.bind_eq_bind, Option.bind_some, hSegments]
    rfl

------------------------------------------------------------
-- Drawing
------------------------------------------------------------

/- Adds a segment to a figure, unless it is not to be stroked. -/
def SegmentShape.add?
    (b : PathBuilder α)
    (s : SegmentShape α) : Option (PathBuilder α) :=
  if s.stroked then b.addPoints? s.kind.element s.points else some b

/- The path of a figure before it is closed. -/
def FigureShape.open?
    (f : FigureShape α) : Option (PathBuilder α) :=
  f.segments.foldlM SegmentShape.add?
    (PathBuilder.empty.push (.moveTo f.start))

/- The path of a figure. -/
def FigureShape.builder?
    (f : FigureShape α) : Option (PathBuilder α) :=
  f.open?.map fun b => if f.closed then b.push .close else b

------------------------------------------------------------
-- Stored attributes
------------------------------------------------------------

/- Attributes as they come back from an entry. -/
def storedAttributes
    (attributes : List Attribute) : List Attribute :=
  (attributes.filter (·.name != keyAttribute)).map
    Attribute.normalized

/- Values come back from an entry, but for the key. -/
theorem valueOf?_storedAttributes
    {name : String}
    (hName : name ≠ keyAttribute)
    (attributes : List Attribute) :
    valueOf? (storedAttributes attributes) name =
      (valueOf? attributes name).map normalizeValue := by
  have hSame :
      (fun a : Attribute =>
        a.name != keyAttribute && (a.normalized.name == name)) =
        fun a => a.name == name := by
    funext a
    rw [Bool.eq_iff_iff, Bool.and_eq_true, bne_iff_ne, beq_iff_eq,
      beq_iff_eq]
    constructor
    · exact And.right
    · rintro hIs
      exact ⟨hIs ▸ hName, hIs⟩
  unfold valueOf? storedAttributes
  rw [List.find?_map, List.find?_filter, Option.map_map,
    Option.map_map]
  simp only [Function.comp_apply, Bool.decide_and,
    Bool.decide_eq_true, hSame]
  rfl

/- Flags are read as before. -/
theorem flag?_storedAttributes
    {name : String}
    (hName : name ≠ keyAttribute)
    (attributes : List Attribute)
    (known : Bool) :
    flag? (storedAttributes attributes) name known =
      flag? attributes name known := by
  unfold flag?
  rw [valueOf?_storedAttributes hName]
  cases valueOf? attributes name with
  | none => rfl
  | some value => exact Value.boolean?_normalizeValue value

end FixedPage
