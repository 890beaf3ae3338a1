import FixedPage.Proofs.Render.Turned

/-
  This file says under which transformation a geometry inside of
  a path is drawn, and the clip of the path with it. The attribute
  of a geometry that transforms it acts before both. A child that
  does the same is seen only by a geometry that is made of figures,
  whose clip is in place by then. A geometry that is given as data
  has no frame of its own, and nothing comes of its children.

  Main declarations:
    * `TurnedGeometry`
    * `TurnedGeometry.moved_under_iff`
    * `GeometryDraws`
    * `feedAll_transformTags_path`
    * `feedAll_transformTags_geometry`
    * `geometry_transformation`
-/

namespace FixedPage

open Markup

variable {α : Type} [Scalar α]

------------------------------------------------------------
-- Geometries
------------------------------------------------------------

/-
  A geometry inside of a path, made of figures or given as data:
  the transformation in effect when it started, those that its
  attributes give, and the marks that have been left since.
-/
structure TurnedGeometry (α : Type) where
  hasFigures : Bool
  start : Matrix α
  given : List (Matrix α)
  later : List (Mark α)

namespace TurnedGeometry

/- The transformation after the attributes of the geometry. -/
def turned
    (el : TurnedGeometry α) : Matrix α :=
  turnedBy el.start (el.given.map .turn)

omit [Scalar α] in
/-
  The marks that a part is drawn after. The clip comes before all
  of them if the geometry is made of figures.
-/
def since
    (el : TurnedGeometry α)
    (part : ElementPart) : List (Mark α) :=
  if el.hasFigures = true ∧ part = .clip then [] else el.later

/- The transformation under which a part is drawn. -/
def under
    (el : TurnedGeometry α)
    (part : ElementPart) : Matrix α :=
  turnedBy el.turned (el.since part)

omit [Scalar α] in
/-
  The same geometry with what its attributes give moved to a child
  that comes first. It leaves marks only if there are figures.
-/
def moved
    (el : TurnedGeometry α) : TurnedGeometry α :=
  { el with
    given := []
    later :=
      if el.hasFigures then el.given.map .turn ++ el.later
      else el.later }

omit [Scalar α] in
/- The part does not depend on where the geometry is turned. -/
def Follows
    (el : TurnedGeometry α)
    (part : ElementPart) : Prop :=
  el.hasFigures = true ∧ part ≠ .clip

/-
  Moving a transformation from an attribute to a child leaves the
  one under which a part is drawn, unless the part does not follow
  and the attribute makes a difference.
-/
theorem moved_under_iff
    {el : TurnedGeometry α}
    (part : ElementPart) :
    el.moved.under part = el.under part ↔
      el.Follows part ∨
        turnedBy el.start (el.since part) =
          turnedBy el.turned (el.since part) := by
  have hTurned : el.moved.turned = el.start := rfl
  by_cases hFollows : el.Follows part
  · have hSince :
        el.moved.since part = el.given.map .turn ++ el.later := by
      unfold since moved
      simp [hFollows.1, hFollows.2]
    have hSame : el.since part = el.later := by
      unfold since
      simp [hFollows.2]
    simp only [hFollows, true_or, iff_true]
    rw [under, hTurned, hSince, turnedBy_append, under, hSame]
    rfl
  · have hSince : el.moved.since part = el.since part := by
      unfold since moved
      unfold Follows at hFollows
      cases hFigures : el.hasFigures with
      | false => simp
      | true =>
          rw [hFigures] at hFollows
          simp only [true_and, ne_eq, not_not] at hFollows
          simp [hFollows]
    simp only [hFollows, false_or]
    rw [under, hTurned, hSince, under]

end TurnedGeometry

------------------------------------------------------------
-- Children of a geometry
------------------------------------------------------------

/- The tags of a child that transforms a geometry. -/
def transformTags
    (place : Location)
    (value : String) : List (Location × Event) :=
  [(place, .startTag "PathGeometry.Transform" []),
    (place, .startTag "MatrixTransform" [⟨"Matrix", value⟩]),
    (place, .endTag "MatrixTransform"),
    (place, .endTag "PathGeometry.Transform")]

section

variable {env : Environment α} {lookup : BrushLookup α}
variable {owner depth : Nat} {below : List (Entry α)}
variable (place : Location) (value : String) (st : RenderState α)

/- On the frame of a path nothing comes of such a child. -/
theorem feedAll_transformTags_path
    (f : PathFrame α)
    (hOwner : owner ≤ depth) :
    Stack.feedAll env (startElement env lookup)
        ⟨⟨.path f, owner⟩ :: below, depth⟩ st
        (transformTags place value) =
      ⟨.ok none, ⟨⟨.path f, owner⟩ :: below, depth⟩, st⟩ := by
  have hEnd :
      ∀ (name : String) (inner : Nat),
        f.endChild name .none st = (f, st) →
          owner ≠ inner + 1 →
            Stack.feed env (startElement env lookup) place
                ⟨⟨.path f, owner⟩ :: below, inner + 1⟩ st
                (.endTag name) =
              ⟨.ok none, ⟨⟨.path f, owner⟩ :: below, inner⟩, st⟩ := by
    intro name inner hSame hOther
    rw [Stack.feed, Stack.endElement]
    dsimp only
    rw [if_pos (by simpa using hOther)]
    simp only [Frame.endChild, hSame]
    rfl
  have hStart :
      ∀ (name : String) (attributes : List Attribute) (inner : Nat),
        f.startChild env ⟨place, name, attributes⟩ = pure (f, none) →
          Stack.feed env (startElement env lookup) place
              ⟨⟨.path f, owner⟩ :: below, inner⟩ st
              (.startTag name attributes) =
            ⟨.ok none, ⟨⟨.path f, owner⟩ :: below, inner + 1⟩, st⟩ := by
    intro name attributes inner hSame
    rw [Stack.feed, Stack.startElement]
    dsimp only
    rw [startElement]
    dsimp only
    rw [hSame]
    rfl
  rw [transformTags, Stack.feedAll, hStart _ _ _ rfl]
  dsimp only
  rw [Stack.feedAll, hStart _ _ _ rfl]
  dsimp only
  rw [Stack.feedAll, hEnd _ _ rfl (by omega)]
  dsimp only
  rw [Stack.feedAll, hEnd _ _ rfl (by omega)]
  rfl

/- On the frame of a geometry it turns what is drawn. -/
theorem feedAll_transformTags_geometry
    (g : GeometryFrame α)
    {m : Matrix α}
    (hValue : Value.matrix? value = some m) :
    Stack.feedAll env (startElement env lookup)
        ⟨⟨.geometry g, owner⟩ :: below, depth⟩ st
        (transformTags place value) =
      ⟨.ok none, ⟨⟨.geometry g, owner⟩ :: below, depth⟩,
        st.draw (Surface.transform m)⟩ := by
  have hOpen :
      Stack.feed env (startElement env lookup) place
          ⟨⟨.geometry g, owner⟩ :: below, depth⟩ st
          (.startTag "PathGeometry.Transform" []) =
        ⟨.ok none,
          ⟨⟨.matrix .identity, depth + 1⟩ :: ⟨.geometry g, owner⟩
            :: below, depth + 1⟩, st⟩ :=
    rfl
  have hMatrix :
      Stack.feed env (startElement env lookup) place
          ⟨⟨.matrix .identity, depth + 1⟩ :: ⟨.geometry g, owner⟩
            :: below, depth + 1⟩ st
          (.startTag "MatrixTransform" [⟨"Matrix", value⟩]) =
        ⟨.ok none,
          ⟨⟨.matrix m, depth + 1⟩ :: ⟨.geometry g, owner⟩ :: below,
            depth + 2⟩, st⟩ := by
    have hRead :
        startMatrix
            ⟨place, "MatrixTransform", [⟨"Matrix", value⟩]⟩
            (.identity : Matrix α) = .ok m := by
      simp [startMatrix, takeMatrixAttribute, Element.read, hValue]
    rw [Stack.feed, Stack.startElement]
    dsimp only
    rw [startElement, startStored, Action.perform_bind,
      Action.perform_ofExcept, hRead]
    rfl
  have hInside :
      Stack.feed env (startElement env lookup) place
          ⟨⟨.matrix m, depth + 1⟩ :: ⟨.geometry g, owner⟩ :: below,
            depth + 2⟩ st (.endTag "MatrixTransform") =
        ⟨.ok none,
          ⟨⟨.matrix m, depth + 1⟩ :: ⟨.geometry g, owner⟩ :: below,
            depth + 1⟩, st⟩ := by
    rw [Stack.feed, Stack.endElement]
    dsimp only
    rw [if_pos (by simp)]
    rfl
  have hClose :
      Stack.feed env (startElement env lookup) place
          ⟨⟨.matrix m, depth + 1⟩ :: ⟨.geometry g, owner⟩ :: below,
            depth + 1⟩ st (.endTag "PathGeometry.Transform") =
        ⟨.ok none, ⟨⟨.geometry g, owner⟩ :: below, depth⟩,
          st.draw (Surface.transform m)⟩ := by
    rw [Stack.feed, Stack.endElement]
    dsimp only
    rw [if_neg (by simp)]
    rfl
  rw [transformTags, Stack.feedAll, hOpen]
  dsimp only
  rw [Stack.feedAll, hMatrix]
  dsimp only
  rw [Stack.feedAll, hInside]
  dsimp only
  rw [Stack.feedAll, hClose]
  rfl

end

------------------------------------------------------------
-- Geometries that are drawn
------------------------------------------------------------

/-
  A geometry has started inside of a path in a run under way, under
  a transformation, and a part of the path is drawn on a surface:
  the clip, when a geometry made of figures starts, or anything
  that an end tag calls for while the path is still on the stack.
  Since the geometry started the path has left marks.
-/
inductive GeometryDraws
    (env : Environment α)
    (first : Run α)
    (st₀ : RenderState α)
    (outer : List (Run α))
    (owner : Nat)
    (below : List (Entry α)) :
    Element → Matrix α → List (Mark α) → ElementPart → Surface α → Prop
| clipFirst
    {f : PathFrame α}
    {depth : Nat}
    {place : Location}
    {name data : String}
    {attributes : List Attribute}
    {rest : List Item}
    {st : RenderState α}
    {t : Surface α}
    (hActive :
      Active env first st₀
        (⟨.page, ⟨⟨.path f, owner⟩ :: below, depth⟩,
          some (.ok (place, .startTag name attributes) :: rest)⟩
            :: outer) st)
    (hCalled :
      Work.CalledFor env (.clip data)
        ⟨⟨.path f, owner⟩ :: below, depth⟩ place
        (.startTag name attributes) st t) :
    GeometryDraws env first st₀ outer owner below
      ⟨place, name, attributes⟩ st.surface.ctm [] .clip t
| since
    {f : PathFrame α}
    {depth : Nat}
    {place place' : Location}
    {name name' : String}
    {attributes : List Attribute}
    {rest rest' : List Item}
    {product? : Option (Product α)}
    {stack stack' : Stack α}
    {later : List (Mark α)}
    {part : ElementPart}
    {st st' now : RenderState α}
    {t : Surface α}
    (hActive :
      Active env first st₀
        (⟨.page, ⟨⟨.path f, owner⟩ :: below, depth⟩,
          some (.ok (place, .startTag name attributes) :: rest)⟩
            :: outer) st)
    (hTakes : f.Takes ⟨place, name, attributes⟩)
    (hFed :
      Stack.feed env (startElement env (pageBrush env)) place
        ⟨⟨.path f, owner⟩ :: below, depth⟩ st
        (.startTag name attributes) = ⟨.ok product?, stack, st'⟩)
    (hStays :
      Stays env below.length ⟨.page, stack, some rest⟩ st' later
        ⟨.page, stack', some (.ok (place', .endTag name') :: rest')⟩
        now)
    (hCalled :
      part.CalledFor env .path (.onStack owner below) stack' place'
        (.endTag name') now t)
    (hClip :
      part = .clip →
        (PathFrame.lastValue? ⟨place, name, attributes⟩
          "Figures").isSome = true) :
    GeometryDraws env first st₀ outer owner below
      ⟨place, name, attributes⟩ st.surface.ctm later part t

section

variable {env : Environment α}

/- The marks of a geometry turn what is drawn by its attributes. -/
theorem PathFrame.turnedBy_geometryMarks
    (f : PathFrame α)
    (e : Element)
    (turns : List (Matrix α))
    (c : Matrix α) :
    turnedBy c (f.geometryMarks e turns) =
      turnedBy c (turns.map .turn) := by
  unfold geometryMarks
  rw [turnedBy_append]
  split
  · rfl
  · cases f.state.clip? <;> simp [Mark.turned]

/-
  Each part that a geometry bears on is drawn under the
  transformation that is said, however the run has come so far.
  A child that transforms the geometry turns what is drawn if the
  geometry is made of figures, and does nothing if it is given as
  data. So moving what the attributes of the geometry give to a
  first child leaves the transformation of the figures as it is,
  but neither that of the clip nor that of a geometry given as
  data, unless it makes no difference there.
-/
theorem geometry_transformation
    {items : List Item}
    {st₀ : RenderState α}
    {outer : List (Run α)}
    {owner : Nat}
    {below : List (Entry α)}
    {e : Element}
    {start : Matrix α}
    {known : List (Mark α)}
    {part : ElementPart}
    {t : Surface α}
    (hDraws :
      GeometryDraws env (.ofPage items) st₀ outer owner below e start
        known part t) :
    (∃ el : TurnedGeometry α,
      el.hasFigures = (PathFrame.lastValue? e "Figures").isNone ∧
        el.start = start ∧
        TurnsBy env e "Transform" e.attributes el.given ∧
        GeometryDraws env (.ofPage items) st₀ outer owner below e
          start el.later part t ∧
        t.ctm = el.under part ∧
        (el.moved.under part = el.under part ↔
          el.Follows part ∨
            turnedBy el.start (el.since part) =
              turnedBy el.turned (el.since part))) ∧
      ∀ (place : Location) (value : String) (depth : Nat)
        (st : RenderState α),
        (∀ f : PathFrame α,
          owner ≤ depth →
            Stack.feedAll env (startElement env (pageBrush env))
                ⟨⟨.path f, owner⟩ :: below, depth⟩ st
                (transformTags place value) =
              ⟨.ok none, ⟨⟨.path f, owner⟩ :: below, depth⟩, st⟩) ∧
          ∀ (g : GeometryFrame α) (inner : Nat) (f : PathFrame α)
            (m : Matrix α),
            Value.matrix? value = some m →
              Stack.feedAll env (startElement env (pageBrush env))
                  ⟨⟨.geometry g, inner⟩ :: ⟨.path f, owner⟩ :: below,
                    depth⟩ st (transformTags place value) =
                ⟨.ok none,
                  ⟨⟨.geometry g, inner⟩ :: ⟨.path f, owner⟩ :: below,
                    depth⟩, st.draw (Surface.transform m)⟩ := by
  refine ⟨?_, fun place value depth st => ⟨?_, ?_⟩⟩
  · suffices hFound :
        ∃ el : TurnedGeometry α,
          el.hasFigures = (PathFrame.lastValue? e "Figures").isNone ∧
            el.start = start ∧
            TurnsBy env e "Transform" e.attributes el.given ∧
            GeometryDraws env (.ofPage items) st₀ outer owner below e
              start el.later part t ∧
            t.ctm = el.under part by
      rcases hFound with ⟨el, hForm, hStart, hTurns, hDrawn, hUnder⟩
      exact
        ⟨el, hForm, hStart, hTurns, hDrawn, hUnder,
          TurnedGeometry.moved_under_iff part⟩
    cases hDraws with
    | clipFirst hActive hCalled =>
        have hDrawn := GeometryDraws.clipFirst hActive hCalled
        cases hCalled with
        | canvasClip hFrame =>
            change FrameKind.path ∈ [.page, .visual, .canvas] at hFrame
            exact absurd hFrame (by decide)
        | figuresClip hStarts hClip =>
            rcases PathFrame.readGeometry_traced hStarts.read with
              ⟨turns, hTurns, hRead⟩
            refine
              ⟨⟨true, _, turns, []⟩, ?_, rfl, hTurns, hDrawn, ?_⟩
            · rw [hStarts.figures]
              rfl
            · exact hRead.ctm
    | @since f depth place place' name name' attributes _ _ product?
        stack stack' _ _ st st' now _ hActive hTakes hFed hStays hCalled
        hClip =>
        have hStarted :
            ∃ turns,
              TurnsBy env ⟨place, name, attributes⟩ "Transform"
                  attributes turns ∧
                Stack.Traces st.surface .path owner below
                  (f.geometryMarks ⟨place, name, attributes⟩ turns)
                  stack.entries st' := by
          cases Stack.takes_of_feed hFed with
          | seen hStart =>
              exact
                Stack.Traces.startGeometry depth rfl .refl hTakes hStart
          | owned hStart =>
              exact
                Stack.Traces.startGeometry (depth + 1) rfl .refl hTakes
                  hStart
        rcases hStarted with ⟨turns, hTurns, hTraces⟩
        rcases hStays.traces hTraces with ⟨later, hStays', hNow⟩
        refine
          ⟨⟨(PathFrame.lastValue? ⟨place, name, attributes⟩
              "Figures").isNone, _, turns, later⟩,
            rfl, rfl, hTurns,
            .since hActive hTakes hFed hStays' hCalled hClip, ?_⟩
        rw [hNow.ctm_part hCalled, turnedBy_append,
          PathFrame.turnedBy_geometryMarks, TurnedGeometry.under,
          TurnedGeometry.since, if_neg]
        · rfl
        · rintro ⟨hNone, hPart⟩
          rw [Option.isNone_iff_eq_none] at hNone
          have hSome := hClip hPart
          rw [hNone] at hSome
          cases hSome
  · exact fun f hOwner => feedAll_transformTags_path place value st f hOwner
  · exact fun g inner f m hValue =>
      feedAll_transformTags_geometry place value st g hValue

end

------------------------------------------------------------
-- Figures that are turned
------------------------------------------------------------

namespace TurnedFigures

/- The clip of a path. -/
def clip : String :=
  "M 0,0 L 5,0 5,5"

/- The start of a geometry made of figures inside of it. -/
def geometry : Element :=
  ⟨⟨"page", 1, 1⟩, "PathGeometry", [⟨"Transform", "2,0,0,2,0,0"⟩]⟩

/- A page with the path. -/
def page : List Item :=
  ([.startTag "FixedPage" [],
    .startTag "Path" [⟨"Clip", clip⟩],
    .startTag "Path.Data" [],
    .startTag geometry.name geometry.attributes,
    .endTag geometry.name,
    .endTag "Path.Data",
    .endTag "Path",
    .endTag "FixedPage"] : List Event).map
      fun tag => .ok (geometry.place, tag)

/- The state before the page is drawn. -/
def start : RenderState ℚ :=
  .start .empty .empty .empty

/- The frame of the path. -/
def frame : PathFrame ℚ :=
  ⟨{ PathState.initial with clip? := some clip }, false, false⟩

/- What lies under it. -/
def below : List (Entry ℚ) :=
  [⟨.content ⟨none, 0⟩, 0⟩]

/- The state when the geometry starts. -/
def before : RenderState ℚ :=
  start.draw Surface.save

/- What the attributes of the geometry make of the path. -/
def read : Except Error (PathFrame ℚ) × RenderState ℚ :=
  Action.perform
    (geometry.attributes.foldlM
      (PathFrame.takeGeometryAttribute .empty geometry) frame)
    before

end TurnedFigures

/- The clip would not follow if a child turned the figures. -/
theorem TurnedFigures.clip_unmoved :
    ∃ (el : TurnedGeometry ℚ) (t : Surface ℚ),
      GeometryDraws .empty (.ofPage TurnedFigures.page)
          TurnedFigures.start [] 2 TurnedFigures.below
          TurnedFigures.geometry TurnedFigures.before.surface.ctm
          el.later .clip t ∧
        t.ctm = el.under .clip ∧
        el.moved.under .clip ≠ el.under .clip := by
  have hActive :
      Active .empty (.ofPage TurnedFigures.page) TurnedFigures.start
        [⟨.page,
          ⟨⟨.path TurnedFigures.frame, 2⟩ :: TurnedFigures.below, 3⟩,
          some (TurnedFigures.page.drop 3)⟩]
        TurnedFigures.before :=
    .step (.step (.step .start rfl (.inl rfl)) rfl (.inl rfl)) rfl
      (.inl rfl)
  have hTurned :
      TurnedFigures.read.2.surface.ctm ≠
        TurnedFigures.before.surface.ctm := by
    decide +kernel
  have hClip :
      TurnedFigures.read.1.toOption.map (·.state.clip?) =
        some (some TurnedFigures.clip) := by
    decide +kernel
  rcases hRead : TurnedFigures.read with ⟨fault | f, read⟩
  · rw [hRead] at hClip
    cases hClip
  rw [hRead] at hClip hTurned
  have hDraws :
      GeometryDraws .empty (.ofPage TurnedFigures.page)
        TurnedFigures.start [] 2 TurnedFigures.below
        TurnedFigures.geometry TurnedFigures.before.surface.ctm [] .clip
        (Work.apply (.rule f.state.fillRule) read.surface) :=
    .clipFirst hActive
      (.figuresClip ⟨rfl, rfl, hRead, rfl⟩ (Option.some.inj hClip))
  rcases geometry_transformation hDraws with
    ⟨⟨el, hForm, hStart, -, hDrawn, hUnder, hMoved⟩, -⟩
  refine ⟨el, _, hDrawn, hUnder, fun hSame => ?_⟩
  have hSince : el.since .clip = [] :=
    if_pos ⟨hForm, rfl⟩
  rcases hMoved.mp hSame with hFollows | hSame
  · exact hFollows.2 rfl
  · rw [TurnedGeometry.under, ← hSame, hSince] at hUnder
    exact hTurned (hUnder.trans hStart)

end FixedPage
