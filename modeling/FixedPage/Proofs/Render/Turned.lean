import FixedPage.Proofs.Mirror.Relation
import FixedPage.Proofs.Render.Tracing
import FixedPage.Proofs.Scalar.Exact

/-
  This file says under which transformation the clip, the content
  and the mask of an element are drawn. The attribute of an
  element that transforms it acts before all of them. A child
  that does the same acts on what follows: on the content, and
  on the clip of a path or a glyph run, which are drawn when the
  element ends. A canvas has its clip already by then, and the
  group of a mask that is given as an attribute is closed again
  under the transformation that it was opened under.

  Main declarations:
    * `TurnedElement`
    * `TurnedElement.under`
    * `TurnedElement.moved_under_iff`
    * `ElementPart.CalledFor`
    * `Stack.Traces.ctm_part`
    * `Active.part_transformation`
-/

namespace FixedPage

open Markup

variable {α : Type}

------------------------------------------------------------
-- Parts of an element
------------------------------------------------------------

/- What of an element is drawn under a transformation. -/
inductive ElementPart where
  | clip
  | content
  | mask
deriving DecidableEq, Repr

/-
  An element that draws: the transformation in effect before it,
  those that its attributes give, and the marks that it has left
  since it started.
-/
structure TurnedElement (α : Type) where
  kind : FrameKind
  start : Matrix α
  given : List (Matrix α)
  later : List (Mark α)

section

variable [Scalar α]

namespace TurnedElement

/- The transformation after the attributes of the element. -/
def turned
    (el : TurnedElement α) : Matrix α :=
  turnedBy el.start (el.given.map .turn)

/- The transformation in effect by now. -/
def current
    (el : TurnedElement α) : Matrix α :=
  turnedBy el.turned el.later

/-
  The transformation under which a part of the element is drawn.
  A canvas narrows its clip when it starts. The group of a mask
  is closed under the transformation that it was opened under,
  after a child or, without one, when the element started.
-/
def under
    (el : TurnedElement α) : ElementPart → Matrix α
| .content => el.current
| .clip => if el.kind = .canvas then el.turned else el.current
| .mask =>
    if el.kind = .path then el.current
    else (keptBy el.turned el.later).headD el.turned

/-
  The same element with what its attributes give moved to a child
  that comes first.
-/
def moved
    (el : TurnedElement α) : TurnedElement α :=
  { el with
    given := []
    later := el.given.map .turn ++ el.later }

/- The part does not depend on where the element is turned. -/
def Follows
    (el : TurnedElement α) : ElementPart → Prop
| .content => True
| .clip => el.kind ≠ .canvas
| .mask => el.kind = .path ∨ .group ∈ el.later

variable {el : TurnedElement α}

/- Moving a transformation leaves the one in effect by now. -/
theorem current_moved :
    el.moved.current = el.current :=
  turnedBy_append el.start (el.given.map .turn) el.later

/- A mask that is given by a child follows it. -/
theorem kept_moved :
    keptBy el.moved.turned el.moved.later = keptBy el.turned el.later := by
  change keptBy el.start (el.given.map .turn ++ el.later) = _
  rw [keptBy_append, keptBy_turns, List.append_nil]
  rfl

/- All parts of a path are drawn under the one in effect. -/
theorem under_path
    (hKind : el.kind = .path)
    (part : ElementPart) :
    el.under part = el.current := by
  cases part <;> simp [under, hKind]

/-
  Moving a transformation from an attribute to a child leaves the
  one under which a part is drawn, unless the part does not follow
  and the attribute makes a difference.
-/
theorem moved_under_iff
    (part : ElementPart) :
    el.moved.under part = el.under part ↔
      el.Follows part ∨ el.turned = el.start := by
  have hStart : el.moved.turned = el.start := rfl
  cases part with
  | content => simp [under, Follows, current_moved]
  | clip =>
      simp only [under, Follows]
      by_cases hKind : el.kind = .canvas
      · have hMoved : el.moved.kind = .canvas := hKind
        rw [if_pos hKind, if_pos hMoved, hStart]
        simp [hKind, eq_comm]
      · have hMoved : el.moved.kind ≠ .canvas := hKind
        rw [if_neg hKind, if_neg hMoved, current_moved]
        simp [hKind]
  | mask =>
      simp only [under, Follows]
      by_cases hKind : el.kind = .path
      · have hMoved : el.moved.kind = .path := hKind
        rw [if_pos hKind, if_pos hMoved, current_moved]
        simp [hKind]
      · have hMoved : el.moved.kind ≠ .path := hKind
        rw [if_neg hKind, if_neg hMoved, kept_moved, hStart]
        cases hKept : keptBy el.turned el.later with
        | nil =>
            have hGroup := (keptBy_eq_nil_iff _).mp hKept
            simp [hKind, hGroup, eq_comm]
        | cons c rest =>
            have hGroup : .group ∈ el.later := by
              by_contra hNone
              rw [(keptBy_eq_nil_iff _).mpr hNone] at hKept
              cases hKept
            simp [hGroup]

end TurnedElement

------------------------------------------------------------
-- Parts that are drawn
------------------------------------------------------------

/- The frames on top of which an element lies, or that it starts. -/
inductive ElementPlace (α : Type) where
  | starting
  | onStack
      (owner : Nat)
      (below : List (Entry α))

/-
  An event calls for a part of an element to be drawn, on a
  surface, when the frames and the state before the event are
  given. A canvas draws its clip when it starts, and the elements
  inside of it when these start. A path and a glyph run draw
  everything when they end, but figures are drawn when they end
  themselves, and the clip of the path when the geometry around
  them starts.
-/
inductive ElementPart.CalledFor
    (env : Environment α) :
    ElementPart → FrameKind → ElementPlace α →
      Stack α → Location → Event → RenderState α → Surface α → Prop
| canvasClip
    {stack : Stack α}
    {place : Location}
    {attributes : List Attribute}
    {st : RenderState α}
    {t : Surface α}
    {data : String}
    (hCalled :
      Work.CalledFor env (.clip data) stack place
        (.startTag "Canvas" attributes) st t) :
    CalledFor env .clip .canvas .starting stack place
      (.startTag "Canvas" attributes) st t
| clip
    {kind : FrameKind}
    {frame : Frame α}
    {owner depth : Nat}
    {below : List (Entry α)}
    {place : Location}
    {event : Event}
    {st : RenderState α}
    {t : Surface α}
    {data : String}
    (hFrame : frame.kind = kind)
    (hKind : kind ∈ [.path, .glyphs])
    (hCalled :
      Work.CalledFor env (.clip data) ⟨⟨frame, owner⟩ :: below, depth⟩
        place event st t) :
    CalledFor env .clip kind (.onStack owner below)
      ⟨⟨frame, owner⟩ :: below, depth⟩ place event st t
| canvasContent
    {f : CanvasFrame α}
    {owner depth : Nat}
    {below : List (Entry α)}
    {place : Location}
    {name : String}
    {attributes : List Attribute}
    {st : RenderState α} :
    CalledFor env .content .canvas (.onStack owner below)
      ⟨⟨.canvas f, owner⟩ :: below, depth⟩ place
      (.startTag name attributes) st st.surface
| pathContent
    {f : PathFrame α}
    {depth : Nat}
    {below : List (Entry α)}
    {place : Location}
    {name data : String}
    {st : RenderState α}
    {t : Surface α}
    (hCalled :
      Work.CalledFor env (.path f.state data)
        ⟨⟨.path f, depth⟩ :: below, depth⟩ place (.endTag name) st t) :
    CalledFor env .content .path (.onStack depth below)
      ⟨⟨.path f, depth⟩ :: below, depth⟩ place (.endTag name) st t
| pathMask
    {f : PathFrame α}
    {depth : Nat}
    {below : List (Entry α)}
    {place : Location}
    {name data : String}
    {st : RenderState α}
    {t : Surface α}
    (hCalled :
      Work.CalledFor env (.path f.state data)
        ⟨⟨.path f, depth⟩ :: below, depth⟩ place (.endTag name) st t)
    (hMask : f.state.mask?.isSome = true) :
    CalledFor env .mask .path (.onStack depth below)
      ⟨⟨.path f, depth⟩ :: below, depth⟩ place (.endTag name) st
      (t.maskedPath
        (PathBuilder.empty.takeAll (PathData.trace data).steps) f.state
        true)
| figureContent
    {g : GeometryFrame α}
    {f : PathFrame α}
    {inner owner : Nat}
    {below : List (Entry α)}
    {stack : Stack α}
    {place : Location}
    {st : RenderState α}
    (hEnds : stack.EndsFigure g)
    (hOn : stack.OnGeometry g inner (⟨.path f, owner⟩ :: below)) :
    CalledFor env .content .path (.onStack owner below) stack place
      (.endTag "PathFigure") st st.surface
| figureMask
    {g : GeometryFrame α}
    {f : PathFrame α}
    {inner owner : Nat}
    {below : List (Entry α)}
    {stack : Stack α}
    {place : Location}
    {st : RenderState α}
    (hEnds : stack.EndsFigure g)
    (hOn : stack.OnGeometry g inner (⟨.path f, owner⟩ :: below))
    (hMask : g.state.mask?.isSome = true) :
    CalledFor env .mask .path (.onStack owner below) stack place
      (.endTag "PathFigure") st (g.masked st.surface)
| glyphsContent
    {f : GlyphsFrame α}
    {layout : GlyphLayout α}
    {depth : Nat}
    {below : List (Entry α)}
    {place : Location}
    {name : String}
    {st : RenderState α}
    {t : Surface α}
    (hCalled :
      Work.CalledFor env (.glyphs f.run f.run.fontMatrix layout)
        ⟨⟨.glyphs f, depth⟩ :: below, depth⟩ place (.endTag name) st t) :
    CalledFor env .content .glyphs (.onStack depth below)
      ⟨⟨.glyphs f, depth⟩ :: below, depth⟩ place (.endTag name) st t
| glyphsMask
    {f : GlyphsFrame α}
    {layout : GlyphLayout α}
    {depth : Nat}
    {below : List (Entry α)}
    {place : Location}
    {name : String}
    {st : RenderState α}
    {t : Surface α}
    (hCalled :
      Work.CalledFor env (.glyphs f.run f.run.fontMatrix layout)
        ⟨⟨.glyphs f, depth⟩ :: below, depth⟩ place (.endTag name) st t)
    (hMask : f.maskGroup = true) :
    CalledFor env .mask .glyphs (.onStack depth below)
      ⟨⟨.glyphs f, depth⟩ :: below, depth⟩ place (.endTag name) st
      (f.run.show f.run.fontMatrix layout t).popGroupToSource
| canvasMask
    {f : CanvasFrame α}
    {depth : Nat}
    {below : List (Entry α)}
    {place : Location}
    {name : String}
    {st : RenderState α}
    (hMask : f.maskGroup = true) :
    CalledFor env .mask .canvas (.onStack depth below)
      ⟨⟨.canvas f, depth⟩ :: below, depth⟩ place (.endTag name) st
      st.surface.popGroupToSource

/- The element with the marks that it has left since it started. -/
def ElementStart.after
    (o : ElementStart α)
    (later : List (Mark α)) : TurnedElement α :=
  ⟨o.kind, o.before.ctm, o.turns, later⟩

/-
  An element of a run under way that is about to start as a canvas,
  or that lies on the stack. While a geometry starts inside of a
  path, its attributes have turned the path as well.
-/
inductive TurnedAt
    (env : Environment α)
    (first : Run α)
    (st₀ : RenderState α)
    (outer : List (Run α)) :
    Run α → RenderState α → ElementPlace α → TurnedElement α → Prop
| starting
    {stack : Stack α}
    {place : Location}
    {attributes : List Attribute}
    {rest : List Item}
    {turns : List (Matrix α)}
    {now : RenderState α}
    (hTurns :
      TurnsBy env ⟨place, "Canvas", attributes⟩ "RenderTransform"
        attributes turns) :
    TurnedAt env first st₀ outer
      ⟨.page, stack,
        some (.ok (place, .startTag "Canvas" attributes) :: rest)⟩
      now .starting ⟨.canvas, now.surface.ctm, turns, []⟩
| opened
    {owner : Nat}
    {below : List (Entry α)}
    {o : ElementStart α}
    {later : List (Mark α)}
    {run : Run α}
    {now : RenderState α}
    (hOpen :
      OpenElement env first st₀ outer owner below o later run now) :
    TurnedAt env first st₀ outer run now (.onStack owner below)
      (o.after later)
| geometry
    {f : PathFrame α}
    {owner depth : Nat}
    {below : List (Entry α)}
    {o : ElementStart α}
    {later : List (Mark α)}
    {place : Location}
    {name : String}
    {attributes : List Attribute}
    {rest : List Item}
    {turns : List (Matrix α)}
    {now : RenderState α}
    (hOpen :
      OpenElement env first st₀ outer owner below o later
        ⟨.page, ⟨⟨.path f, owner⟩ :: below, depth⟩,
          some (.ok (place, .startTag name attributes) :: rest)⟩ now)
    (hTakes : f.Takes ⟨place, name, attributes⟩)
    (hTurns :
      TurnsBy env ⟨place, name, attributes⟩ "Transform" attributes
        turns) :
    TurnedAt env first st₀ outer
      ⟨.page, ⟨⟨.path f, owner⟩ :: below, depth⟩,
        some (.ok (place, .startTag name attributes) :: rest)⟩
      now (.onStack owner below) (o.after (later ++ turns.map .turn))

------------------------------------------------------------
-- Transformations of parts
------------------------------------------------------------

/- What comes before a path that is drawn turns nothing. -/
theorem Work.CalledFor.path_unturned
    {env : Environment α}
    {state : PathState α}
    {data : String}
    {stack : Stack α}
    {place : Location}
    {event : Event}
    {st : RenderState α}
    {t : Surface α}
    (hCalled :
      Work.CalledFor env (.path state data) stack place event st t) :
    st.surface.Unturned t := by
  cases hCalled with
  | path => exact (Surface.Unturned.record _ _).trans (.clipToAny _ _)

/- What comes before a glyph run that is shown turns nothing. -/
theorem Work.CalledFor.glyphs_unturned
    {env : Environment α}
    {run : GlyphRun α}
    {matrix : Matrix α}
    {layout : GlyphLayout α}
    {stack : Stack α}
    {place : Location}
    {event : Event}
    {st : RenderState α}
    {t : Surface α}
    (hCalled :
      Work.CalledFor env (.glyphs run matrix layout) stack place event
        st t) :
    st.surface.Unturned t := by
  cases hCalled with
  | glyphs => exact .clipToAny _ _

omit [Scalar α] in
/- Showing a glyph run turns nothing. -/
theorem Surface.Unturned.showGlyphs
    (run : GlyphRun α)
    (matrix : Matrix α)
    (layout : GlyphLayout α)
    (s : Surface α) :
    Unturned s (run.show matrix layout s) := by
  unfold GlyphRun.show
  cases run.fill? with
  | none => exact record _ s
  | some fill => exact (record _ s).trans (record _ _)

section

variable (o : ElementStart α) (later : List (Mark α))

/- The marks of a start turn what is drawn by its attributes. -/
theorem ElementStart.turnedBy_marks :
    turnedBy o.before.ctm o.marks = (o.after later).turned := by
  unfold marks startMarks FrameOutline.marks
  cases o.clip? <;> cases o.frame.outline.inOpacity <;>
    cases o.frame.outline.inMask <;>
      simp [Mark.turned, after, TurnedElement.turned]

/- A group that a start opens keeps what its attributes give. -/
theorem ElementStart.keptBy_marks
    (hGroup : .group ∈ o.marks) :
    ∃ rest, keptBy o.before.ctm o.marks =
      (o.after later).turned :: rest := by
  have hTurned :
      (o.after later).turned =
        turnedBy o.before.ctm (o.turns.map .turn) :=
    rfl
  unfold marks startMarks at hGroup ⊢
  rw [List.append_assoc, keptBy_append, keptBy_turns, List.append_nil,
    ← hTurned]
  unfold FrameOutline.marks at hGroup ⊢
  revert hGroup
  cases o.clip? <;> cases o.frame.outline.inOpacity <;>
    cases o.frame.outline.inMask <;>
      simp [keptBy, Mark.turned, Mark.kept]

/- All marks of an element turn what is drawn. -/
theorem ElementStart.turnedBy_all :
    turnedBy o.before.ctm (o.marks ++ later) =
      (o.after later).current := by
  rw [turnedBy_append, o.turnedBy_marks later]
  rfl

end

omit [Scalar α] in
/- Closing a group restores what was kept. -/
theorem Surface.ctm_popGroupToSource
    {s : Surface α}
    {m : Matrix α}
    {rest : List (Matrix α)}
    (hSaved : s.saved = m :: rest) :
    s.popGroupToSource.ctm = m := by
  unfold popGroupToSource popGroup closeGroup setSource record unsave
  simp [hSaved]

/-
  Where the group of a mask is closed, the transformation is the
  one under which it was opened.
-/
theorem Surface.Traced.ctm_mask
    {o : ElementStart α}
    {later : List (Mark α)}
    {s t : Surface α}
    (hTraced : o.before.save.Traced (o.marks ++ later) s)
    (hGroup : .group ∈ o.marks ++ later)
    (hSame : s.Unturned t)
    (hKind : o.kind ≠ .path) :
    t.popGroupToSource.ctm = (o.after later).under .mask := by
  have hSaved := hSame.saved.trans hTraced.saved
  rw [keptBy_append] at hSaved
  have hTurned :
      turnedBy o.before.save.ctm o.marks = (o.after later).turned :=
    o.turnedBy_marks later
  rw [hTurned] at hSaved
  have hNotPath : (o.after later).kind ≠ .path := hKind
  rw [TurnedElement.under, if_neg hNotPath]
  cases hKept : keptBy (o.after later).turned later with
  | cons m rest =>
      rw [hKept] at hSaved
      have hLater : (o.after later).later = later := rfl
      rw [hLater, hKept]
      exact ctm_popGroupToSource hSaved
  | nil =>
      have hNone := (keptBy_eq_nil_iff _).mp hKept
      have hStart : .group ∈ o.marks := by
        rcases List.mem_append.mp hGroup with hStart | hLater
        · exact hStart
        · exact absurd hLater hNone
      rcases o.keptBy_marks later hStart with ⟨rest, hMarks⟩
      have hLater : (o.after later).later = later := rfl
      rw [hLater, hKept]
      rw [hKept, List.nil_append] at hSaved
      have hFirst :
          keptBy o.before.save.ctm o.marks =
            (o.after later).turned :: rest := hMarks
      rw [hFirst] at hSaved
      exact ctm_popGroupToSource hSaved

/- What an end tag draws of a path comes after all its marks. -/
theorem Stack.Traces.ctm_part
    {env : Environment α}
    {s t : Surface α}
    {owner : Nat}
    {below : List (Entry α)}
    {marks : List (Mark α)}
    {stack : Stack α}
    {part : ElementPart}
    {place : Location}
    {name : String}
    {now : RenderState α}
    (hTraces : Traces s .path owner below marks stack.entries now)
    (hCalled :
      part.CalledFor env .path (.onStack owner below) stack place
        (.endTag name) now t) :
    t.ctm = turnedBy s.ctm marks := by
  have hTop :
      ∀ {f : PathFrame α} {depth : Nat},
        stack = ⟨⟨.path f, owner⟩ :: below, depth⟩ →
          now.surface.ctm = turnedBy s.ctm marks := by
    rintro f depth rfl
    have hOwn : Own .path owner below (⟨.path f, owner⟩ :: below) :=
      .element rfl rfl
    exact (hTraces.traced hOwn).1.ctm
  have hFigure :
      ∀ {g : GeometryFrame α} {f : PathFrame α} {inner : Nat},
        stack.OnGeometry g inner (⟨.path f, owner⟩ :: below) →
          now.surface.ctm = turnedBy s.ctm marks := by
    intro g f inner hOn
    cases hOn with
    | top => exact (hTraces.traced (.geometry rfl)).1.ctm
    | turned => exact (hTraces.traced_bare (.geometry rfl) rfl rfl).ctm
  cases hCalled with
  | clip hFrame hKind hCalled =>
      cases hCalled with
      | pathClip => exact hTop rfl
      | glyphsClip => cases hFrame
  | pathContent hCalled =>
      exact hCalled.path_unturned.ctm.trans (hTop rfl)
  | pathMask hCalled hMask =>
      exact
        (hCalled.path_unturned.trans (.maskedPath _ _ _ hMask)).ctm.trans
          (hTop rfl)
  | figureContent hEnds hOn => exact hFigure hOn
  | figureMask hEnds hOn hMask =>
      exact
        (Surface.Unturned.maskedPath _ _ _ hMask).ctm.trans (hFigure hOn)

/- A path of which something is drawn lies on the stack. -/
theorem ElementPart.CalledFor.hasPath
    {env : Environment α}
    {part : ElementPart}
    {owner : Nat}
    {below : List (Entry α)}
    {stack : Stack α}
    {place : Location}
    {event : Event}
    {now : RenderState α}
    {t : Surface α}
    (hCalled :
      part.CalledFor env .path (.onStack owner below) stack place event
        now t) :
    stack.HasElement .path owner below := by
  cases hCalled with
  | @clip _ frame _ _ _ _ _ _ _ _ hFrame hKind hCalled =>
      exact ⟨[], frame, rfl, hFrame⟩
  | @pathContent f => exact ⟨[], .path f, rfl, rfl⟩
  | @pathMask f => exact ⟨[], .path f, rfl, rfl⟩
  | figureContent hEnds hOn => exact hOn.hasPath
  | figureMask hEnds hOn hMask => exact hOn.hasPath

/- An end tag draws all parts of a path in the same way. -/
theorem Active.path_part
    {env : Environment α}
    {items : List Item}
    {st₀ now : RenderState α}
    {outer : List (Run α)}
    {stack : Stack α}
    {place : Location}
    {name : String}
    {rest : List Item}
    {part : ElementPart}
    {owner : Nat}
    {below : List (Entry α)}
    {t : Surface α}
    (hActive :
      Active env (.ofPage items) st₀
        (⟨.page, stack, some (.ok (place, .endTag name) :: rest)⟩
          :: outer) now)
    (hCalled :
      part.CalledFor env .path (.onStack owner below) stack place
        (.endTag name) now t) :
    ∃ el,
      TurnedAt env (.ofPage items) st₀ outer
          ⟨.page, stack, some (.ok (place, .endTag name) :: rest)⟩ now
          (.onStack owner below) el ∧
        el.kind = .path ∧ t.ctm = el.under part := by
  rcases hActive.openElement rfl (Run.ofPage_no_element items rfl)
      hCalled.hasPath with
    ⟨o, later, hKind, hOpen, hTraces, -⟩
  refine ⟨_, .opened hOpen, hKind, ?_⟩
  rw [TurnedElement.under_path hKind, ← o.turnedBy_all later]
  exact hTraces.ctm_part hCalled

/-
  Each part of an element is drawn under the transformation that
  is said, however the run has come so far. So moving what the
  attributes of the element give to a first child leaves it as it
  is for the content, for the clip of a path or a glyph run, and
  for the mask of a path. The clip of a canvas and a mask given
  as an attribute of a canvas or a glyph run go without what was
  moved.
-/
theorem Active.part_transformation
    {env : Environment α}
    {items : List Item}
    {st₀ now : RenderState α}
    {outer : List (Run α)}
    {stack : Stack α}
    {place : Location}
    {event : Event}
    {rest : List Item}
    {part : ElementPart}
    {kind : FrameKind}
    {where? : ElementPlace α}
    {t : Surface α}
    (hActive :
      Active env (.ofPage items) st₀
        (⟨.page, stack, some (.ok (place, event) :: rest)⟩ :: outer)
        now)
    (hCalled :
      part.CalledFor env kind where? stack place event now t) :
    ∃ el,
      TurnedAt env (.ofPage items) st₀ outer
          ⟨.page, stack, some (.ok (place, event) :: rest)⟩ now where?
          el ∧
        el.kind = kind ∧
        t.ctm = el.under part ∧
        (el.moved.under part = el.under part ↔
          el.Follows part ∨ el.turned = el.start) := by
  suffices hFound :
      ∃ el,
        TurnedAt env (.ofPage items) st₀ outer
            ⟨.page, stack, some (.ok (place, event) :: rest)⟩ now
            where? el ∧
          el.kind = kind ∧ t.ctm = el.under part by
    rcases hFound with ⟨el, hAt, hKind, hUnder⟩
    exact ⟨el, hAt, hKind, hUnder, TurnedElement.moved_under_iff part⟩
  cases hCalled with
  | canvasClip hCalled =>
      cases hCalled with
      | canvasClip hFrame hRead hClip =>
          rcases CanvasStyle.read_traced hRead with
            ⟨turns, hTurns, hTraced⟩
          exact ⟨_, .starting hTurns, rfl, hTraced.ctm⟩
      | figuresClip hStarts => exact absurd hStarts.name (by simp)
  | @clip _ frame _ _ _ _ _ _ _ _ hFrame hKind hCalled =>
      subst hFrame
      cases hCalled with
      | canvasClip hTop =>
          change frame.kind ∈ [.page, .visual, .canvas] at hTop
          revert hTop hKind
          cases frame.kind <;> simp
      | @figuresClip f _ _ _ _ _ _ _ _ _ _ hStarts hData =>
          rcases hActive.openElement_top (.path f) rfl with
            ⟨o, later, hIs, hOpen, hTraced, -, -⟩
          rcases PathFrame.readGeometry_traced hStarts.read with
            ⟨turns, hTurns, hRead⟩
          refine
            ⟨_, .geometry hOpen ⟨hStarts.name, hStarts.unclipped⟩
              hTurns, hIs, ?_⟩
          rw [TurnedElement.under_path hIs, ← o.turnedBy_all,
            ← List.append_assoc]
          exact (hTraced.trans hRead).ctm
      | pathClip hData hClip =>
          exact hActive.path_part (.clip rfl hKind (.pathClip hData hClip))
      | @glyphsClip f _ _ _ _ _ _ hClip =>
          rcases hActive.openElement_top (.glyphs f) rfl with
            ⟨o, later, hIs, hOpen, hTraced, -, -⟩
          have hNoCanvas : (o.after later).kind ≠ .canvas := by
            change o.kind ≠ .canvas
            rw [hIs]
            simp
          refine ⟨_, .opened hOpen, hIs, ?_⟩
          rw [TurnedElement.under, if_neg hNoCanvas,
            ← o.turnedBy_all later]
          exact hTraced.ctm
  | @canvasContent f =>
      rcases hActive.openElement_top (.canvas f) rfl with
        ⟨o, later, hKind, hOpen, hTraced, -, -⟩
      exact
        ⟨_, .opened hOpen, hKind,
          hTraced.ctm.trans (o.turnedBy_all later)⟩
  | pathContent hCalled => exact hActive.path_part (.pathContent hCalled)
  | pathMask hCalled hMask =>
      exact hActive.path_part (.pathMask hCalled hMask)
  | figureContent hEnds hOn =>
      exact hActive.path_part (.figureContent hEnds hOn)
  | figureMask hEnds hOn hMask =>
      exact hActive.path_part (.figureMask hEnds hOn hMask)
  | @glyphsContent f _ _ _ _ _ _ _ hCalled =>
      rcases hActive.openElement_top (.glyphs f) rfl with
        ⟨o, later, hKind, hOpen, hTraced, -, -⟩
      refine ⟨_, .opened hOpen, hKind, ?_⟩
      rw [TurnedElement.under, ← o.turnedBy_all later]
      exact hCalled.glyphs_unturned.ctm.trans hTraced.ctm
  | @glyphsMask f _ _ _ _ _ _ _ hCalled hMask =>
      rcases hActive.openElement_top (.glyphs f) rfl with
        ⟨o, later, hKind, hOpen, hTraced, -, hGroup⟩
      refine ⟨_, .opened hOpen, hKind, ?_⟩
      exact
        hTraced.ctm_mask (hGroup hMask)
          (hCalled.glyphs_unturned.trans (.showGlyphs _ _ _ _))
          (by rw [hKind]; simp)
  | @canvasMask f _ _ _ _ _ hMask =>
      rcases hActive.openElement_top (.canvas f) rfl with
        ⟨o, later, hKind, hOpen, hTraced, -, hGroup⟩
      refine ⟨_, .opened hOpen, hKind, ?_⟩
      exact
        hTraced.ctm_mask (hGroup hMask) (.refl _) (by rw [hKind]; simp)

end

------------------------------------------------------------
-- A canvas that is turned
------------------------------------------------------------

namespace TurnedCanvas

/- The attributes of a canvas with a clip. -/
def attributes : List Attribute :=
  [⟨"Clip", "M 0,0 L 5,0 5,5"⟩, ⟨"RenderTransform", "2,0,0,2,0,0"⟩]

/- A page with the canvas. -/
def page : List Item :=
  ([.startTag "FixedPage" [], .startTag "Canvas" attributes,
    .endTag "Canvas", .endTag "FixedPage"] : List Event).map
      fun tag => .ok (⟨"page", 1, 1⟩, tag)

/- The state before the page is drawn. -/
def start : RenderState ℚ :=
  .start .empty .empty .empty

/- The stack when the canvas starts. -/
def stack : Stack ℚ :=
  ⟨[⟨.content ⟨none, 0⟩, 0⟩], 1⟩

/- What the attributes of the canvas make of it and of the state. -/
def read : Except Error (CanvasStyle ℚ) × RenderState ℚ :=
  Action.perform
    (attributes.foldlM
      (CanvasStyle.takeAttribute .empty (pageBrush .empty)
        ⟨⟨"page", 1, 1⟩, "Canvas", attributes⟩)
      ⟨none, 1, none⟩)
    (start.draw Surface.save)

end TurnedCanvas

/- The clip would not follow if the canvas were turned by a child. -/
theorem TurnedCanvas.clip_lags :
    ∃ el : TurnedElement ℚ,
      TurnedAt .empty (.ofPage TurnedCanvas.page) TurnedCanvas.start []
          ⟨.page, TurnedCanvas.stack, some (TurnedCanvas.page.drop 1)⟩
          TurnedCanvas.start .starting el ∧
        TurnedCanvas.read.2.surface.ctm = el.under .clip ∧
        el.moved.under .clip ≠ el.under .clip := by
  have hActive :
      Active .empty (.ofPage TurnedCanvas.page) TurnedCanvas.start
        [⟨.page, TurnedCanvas.stack, some (TurnedCanvas.page.drop 1)⟩]
        TurnedCanvas.start :=
    .step .start rfl (.inl rfl)
  have hClip :
      TurnedCanvas.read.1.toOption.map CanvasStyle.clip? =
        some (some "M 0,0 L 5,0 5,5") := by
    decide +kernel
  have hTurned :
      TurnedCanvas.read.2.surface.ctm ≠
        TurnedCanvas.start.surface.ctm := by
    decide +kernel
  rcases hRead : TurnedCanvas.read with ⟨fault | style, read⟩
  · rw [hRead] at hClip
    cases hClip
  rw [hRead] at hClip hTurned
  have hCalled :
      ElementPart.CalledFor .empty .clip .canvas .starting
        TurnedCanvas.stack ⟨"page", 1, 1⟩
        (.startTag "Canvas" TurnedCanvas.attributes)
        TurnedCanvas.start read.surface :=
    .canvasClip
      (.canvasClip (by decide) hRead (Option.some.inj hClip))
  rcases Active.part_transformation hActive hCalled with
    ⟨el, hAt, hKind, hUnder, hMoved⟩
  refine ⟨el, hAt, hUnder, fun hSame => ?_⟩
  rcases hMoved.mp hSame with hFollows | hStart
  · exact hFollows hKind
  · rw [TurnedElement.under, if_pos hKind, hStart] at hUnder
    cases hAt
    exact hTurned hUnder

end FixedPage
