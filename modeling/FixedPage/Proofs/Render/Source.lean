import FixedPage.Proofs.Mirror.Relation
import FixedPage.Proofs.Render.Tracing
import FixedPage.Proofs.Scalar.Exact

/-
  This file says which source is in effect where something is
  painted. A path or a figure is filled and stroked with a source
  that is set right before. So is a glyph run that has a brush;
  one without a brush sets no source, but is shown all the same,
  with whatever source was in effect before its element.

  Main declarations:
    * `PaintedAt`
    * `paintPath_sourced`
    * `ElementStart.glyphs_source`
    * `renderItems_source`
-/

namespace FixedPage

open Markup

variable {α : Type}

------------------------------------------------------------
-- Sources of paint
------------------------------------------------------------

/- The brush of a path that an operation is to paint with. -/
def PathState.brush?
    (state : PathState α) : Operation α → Option (Pattern α)
| .fill _ => state.fill?
| .stroke _ => state.stroke?
| _ => none

/-
  Whatever some operations paint, they have set its brush as the
  source right before.
-/
def Sourced
    (brush? : Operation α → Option (Pattern α))
    (ops : List (Operation α)) : Prop :=
  ∀ before op after,
    ops = before ++ op :: after →
      op.paints = true →
        ∃ earlier pattern,
          before = earlier ++ [.setSource pattern] ∧
            brush? op = some pattern

namespace Sourced

variable {brush? : Operation α → Option (Pattern α)}
variable {ops ops' : List (Operation α)}

/- Nothing is painted. -/
theorem of_none
    (hNone : ∀ op ∈ ops, op.paints = false) :
    Sourced brush? ops := by
  rintro before op after rfl hPaint
  rw [hNone op (by simp)] at hPaint
  cases hPaint

/- A brush is set and painted with. -/
theorem pair
    (op : Operation α)
    {pattern : Pattern α}
    (hBrush : brush? op = some pattern) :
    Sourced brush? [.setSource pattern, op] := by
  intro before op' after hSplit hPaint
  rcases before with _ | ⟨first, _ | ⟨second, before⟩⟩
  · cases hSplit
    cases hPaint
  · cases hSplit
    exact ⟨[], pattern, rfl, hBrush⟩
  · simp at hSplit

/- What is painted first and what is painted afterwards. -/
theorem append
    (hFirst : Sourced brush? ops)
    (hNext : Sourced brush? ops') :
    Sourced brush? (ops ++ ops') := by
  intro before op after hSplit hPaint
  rcases List.append_eq_append_iff.mp hSplit with
    ⟨mid, rfl, hMid⟩ | ⟨mid, rfl, hMid⟩
  · rcases hNext mid op after hMid hPaint with
      ⟨earlier, pattern, rfl, hBrush⟩
    exact
      ⟨ops ++ earlier, pattern, (List.append_assoc ..).symm, hBrush⟩
  · cases mid with
    | nil =>
        rcases hNext [] op after hMid.symm hPaint with
          ⟨earlier, pattern, hNil, -⟩
        simp at hNil
    | cons _ mid =>
        cases hMid
        exact hFirst before op mid rfl hPaint

end Sourced

/- The current path is painted with the brushes of its state. -/
theorem paintCurrent_sourced
    (state : PathState α)
    (filled : Bool) :
    Sourced state.brush? (paintCurrentOperations state filled) := by
  have hFill :
      ∀ fill, (if filled then state.fill? else none) = some fill →
        state.fill? = some fill := by
    intro fill hIs
    split at hIs
    · exact hIs
    · cases hIs
  unfold paintCurrentOperations
  split
  · rename_i fill stroke hIs hStroke
    exact
      Sourced.append
        (.pair (.fill true) (hFill fill hIs))
        (.pair (.stroke state.strokeStyle) hStroke)
  · rename_i fill hIs _
    exact .pair _ (hFill fill hIs)
  · rename_i stroke _ hStroke
    exact .pair _ hStroke
  · exact .of_none fun op hMem => by
      rcases List.mem_singleton.mp hMem with rfl
      rfl

section

variable [Scalar α]

/- A path is painted with the brushes of its state. -/
theorem paintPath_sourced
    (path : PathBuilder α)
    (state : PathState α)
    (filled : Bool)
    (s : Surface α) :
    ∃ ops,
      (paintPath path state filled s).written = s.written ++ ops ∧
        Sourced state.brush? ops := by
  rcases written_paintPath path state filled s with
    ⟨ends, hEnds, hWritten⟩
  refine ⟨_, hWritten, ?_⟩
  refine
    .append (.append (.of_none ?_) (paintCurrent_sourced state filled))
      (.of_none hEnds.paints)
  intro op hMem
  rcases List.mem_append.mp hMem with hMask | hPath
  · exact paints_beginMask path state op hMask
  · rcases List.mem_cons.mp hPath with rfl | hStep
    · rfl
    · exact
        Operation.paints_of_isOutline
          (isOutline_steps path.steps op hStep)

/-
  Whatever comes before a path, the source that it paints with is
  a brush of its state.
-/
theorem paintPath_source
    {path : PathBuilder α}
    {state : PathState α}
    {filled : Bool}
    {s : Surface α}
    {op : Operation α}
    {before after : List (Operation α)}
    (hWritten :
      (paintPath path state filled s).written =
        s.written ++ (before ++ op :: after))
    (hPaint : op.paints = true) :
    ∃ pattern,
      state.brush? op = some pattern ∧
        ∀ (earlier : List (Operation α))
          (x : Setting (Option (Pattern α))),
          (x.takeAll changeSource (earlier ++ before)).current =
            some pattern := by
  rcases paintPath_sourced path state filled s with
    ⟨ops, hOwn, hSourced⟩
  have hSame := List.append_cancel_left (hOwn.symm.trans hWritten)
  rcases hSourced before op after hSame hPaint with
    ⟨last, pattern, rfl, hBrush⟩
  refine ⟨pattern, hBrush, fun earlier x => ?_⟩
  rw [← List.append_assoc, Setting.takeAll_append]
  rfl

------------------------------------------------------------
-- Elements that paint
------------------------------------------------------------

/-
  The operation that follows `pre` paints something of an element
  in a run under way: a path given as data or a glyph run, when
  it ends, or a figure of a path, when the figure ends. The last
  index is the brush of the element for the operation, if it has
  one.
-/
inductive PaintedAt
    (env : Environment α)
    (first : Run α)
    (st₀ : RenderState α)
    (pre : List (Operation α))
    (op : Operation α) :
    ElementStart α → Option (Pattern α) → Prop
| path
    {f : PathFrame α}
    {depth : Nat}
    {below : List (Entry α)}
    {o : ElementStart α}
    {later : List (Mark α)}
    {place : Location}
    {name data : String}
    {rest : List Item}
    {outer : List (Run α)}
    {now : RenderState α}
    {t : Surface α}
    {before after : List (Operation α)}
    (hOpen :
      OpenElement env first st₀ outer depth below o later
        ⟨.page, ⟨⟨.path f, depth⟩ :: below, depth⟩,
          some (.ok (place, .endTag name) :: rest)⟩ now)
    (hCalled :
      Work.CalledFor env (.path f.state data)
        ⟨⟨.path f, depth⟩ :: below, depth⟩ place (.endTag name) now t)
    (hPre : pre = t.written ++ before)
    (hPainted :
      (Work.apply (.path f.state data) t).written = pre ++ op :: after) :
    PaintedAt env first st₀ pre op o (f.state.brush? op)
| figure
    {g : GeometryFrame α}
    {stack : Stack α}
    {owner : Nat}
    {below : List (Entry α)}
    {o : ElementStart α}
    {later : List (Mark α)}
    {place : Location}
    {rest : List Item}
    {outer : List (Run α)}
    {now : RenderState α}
    {before after : List (Operation α)}
    (hOpen :
      OpenElement env first st₀ outer owner below o later
        ⟨.page, stack, some (.ok (place, .endTag "PathFigure") :: rest)⟩
        now)
    (hEnds : stack.EndsFigure g)
    (hPre : pre = now.surface.written ++ before)
    (hPainted :
      (Work.apply (.figure g) now.surface).written =
        pre ++ op :: after) :
    PaintedAt env first st₀ pre op o (g.state.brush? op)
| glyphs
    {f : GlyphsFrame α}
    {layout : GlyphLayout α}
    {depth : Nat}
    {below : List (Entry α)}
    {o : ElementStart α}
    {later : List (Mark α)}
    {place : Location}
    {name : String}
    {rest : List Item}
    {outer : List (Run α)}
    {now : RenderState α}
    {t : Surface α}
    {before after : List (Operation α)}
    (hOpen :
      OpenElement env first st₀ outer depth below o later
        ⟨.page, ⟨⟨.glyphs f, depth⟩ :: below, depth⟩,
          some (.ok (place, .endTag name) :: rest)⟩ now)
    (hCalled :
      Work.CalledFor env (.glyphs f.run f.run.fontMatrix layout)
        ⟨⟨.glyphs f, depth⟩ :: below, depth⟩ place (.endTag name) now t)
    (hPre : pre = t.written ++ before)
    (hPainted :
      (Work.apply (.glyphs f.run f.run.fontMatrix layout) t).written =
        pre ++ op :: after) :
    PaintedAt env first st₀ pre op o f.run.fill?

------------------------------------------------------------
-- Words since a save
------------------------------------------------------------

omit [Scalar α] in
/-
  Some operations after a save that make `own?` the source, if it
  is there, and else leave the source.
-/
theorem sourceInEffect?_since
    {own? : Option (Pattern α)}
    {since : List (Operation α)}
    (hSince :
      ∀ x : Setting (Option (Pattern α)),
        (x.takeAll changeSource since).current = own?.or x.current)
    (before : List (Operation α)) :
    sourceInEffect? since = own? ∧
      sourceInEffect? (before ++ .save :: since) =
        own?.or (sourceInEffect? before) := by
  constructor
  · rw [sourceInEffect?, hSince, Option.or_none]
  · rw [sourceInEffect?, Setting.takeAll_append, Setting.takeAll_cons,
      hSince]
    rfl

/- The marks of a glyph run leave the source. -/
theorem Surface.Traced.source
    {s t : Surface α}
    {marks : List (Mark α)}
    (hTraced : s.Traced marks t)
    (hFigure : ∀ g, .figure g ∉ marks) :
    ∃ w,
      t.written = s.written ++ w ∧
        ∀ x : Setting (Option (Pattern α)),
          (x.takeAll changeSource w).current = x.current := by
  have hEffect :
      ∀ mark ∈ marks, ∀ s : Surface α,
        ∃ w,
          (mark.apply s).written = s.written ++ w ∧
            ∀ x : Setting (Option (Pattern α)),
              (x.takeAll changeSource w).current = x.current := by
    intro mark hMem s
    cases mark with
    | turn m => exact ⟨_, written_transform m s, fun x => rfl⟩
    | group => exact ⟨_, written_pushGroup s, fun x => rfl⟩
    | rule r => exact ⟨_, written_record _ s, fun x => rfl⟩
    | clip data =>
        refine ⟨_, written_clipTo data s, fun x => ?_⟩
        rw [x.takeAll_outline (isOutline_clipOperations data)]
    | figure g => exact absurd hMem (hFigure g)
  rcases hTraced.setting id (fun _ c => c) hEffect with ⟨w, hWritten, hSource⟩
  refine ⟨w, hWritten, fun x => ?_⟩
  have hSame := hSource x
  rwa [List.foldl_fixed] at hSame

/- The operations before the paint of a glyph run. -/
theorem GlyphRun.show_source
    {run : GlyphRun α}
    {matrix : Matrix α}
    {layout : GlyphLayout α}
    {t : Surface α}
    {op : Operation α}
    {before after : List (Operation α)}
    (hWritten :
      (Work.apply (.glyphs run matrix layout) t).written =
        t.written ++ (before ++ op :: after))
    (hPaint : op.paints = true) :
    (∃ text, op = .showGlyphs matrix layout text) ∧
      ∀ x : Setting (Option (Pattern α)),
        (x.takeAll changeSource before).current =
          run.fill?.or x.current := by
  have hShown :=
    (written_show run matrix layout t).trans (List.append_assoc ..)
  have hOps := List.append_cancel_left (hShown.symm.trans hWritten)
  cases hFill : run.fill? with
  | none =>
      rw [hFill] at hOps
      rcases before with _ | ⟨first, before⟩
      · cases hOps
        exact ⟨⟨_, rfl⟩, fun x => rfl⟩
      · simp at hOps
  | some fill =>
      rw [hFill] at hOps
      rcases before with _ | ⟨first, _ | ⟨second, before⟩⟩
      · cases hOps
        cases hPaint
      · cases hOps
        exact ⟨⟨_, rfl⟩, fun x => rfl⟩
      · simp at hOps

------------------------------------------------------------
-- Sources that are painted with
------------------------------------------------------------

/-
  Whatever is painted, its element has started with a save, and
  the source in effect is the brush of the element, set after that
  save. Only a glyph run may be without a brush. No source that is
  set after its save is in effect then, and it is shown with the
  one that was in effect before its element.
-/
theorem renderItems_source
    (env : Environment α)
    (items : List Item)
    (st : RenderState α)
    (pre post : List (Operation α))
    (op : Operation α)
    (hOps :
      (renderItems env items st).2.surface.written =
        pre ++ op :: post)
    (hNew : st.surface.written.length ≤ pre.length)
    (hPaint : op.paints = true) :
    ∃ o own? since,
      PaintedAt env (.ofPage items) st pre op o own? ∧
        pre = o.before.written ++ .save :: since ∧
        sourceInEffect? since = own? ∧
        sourceInEffect? pre =
          own?.or (sourceInEffect? o.before.written) ∧
        (own? = none →
          ∃ matrix layout text,
            op = .showGlyphs matrix layout text) := by
  have hRoutine : op.isRoutine = false := by
    cases op <;> first | rfl | cases hPaint
  rcases (renderItems_drawing env items st).called hOps hNew hRoutine
    with
    ⟨stack, place, event, rest, outer, now, work, t, before, after,
      hActive, hCalled, hWritten, hPre⟩
  have hPainted : (work.apply t).written = pre ++ op :: after := by
    rw [hWritten, hPre, List.append_assoc]
  suffices hFound :
      ∃ o own? since,
        PaintedAt env (.ofPage items) st pre op o own? ∧
          pre = o.before.written ++ .save :: since ∧
          (∀ x : Setting (Option (Pattern α)),
            (x.takeAll changeSource since).current =
              own?.or x.current) ∧
          (own? = none →
            ∃ matrix layout text,
              op = .showGlyphs matrix layout text) by
    rcases hFound with ⟨o, own?, since, hAt, hSplit, hSince, hNone⟩
    have hSource := sourceInEffect?_since hSince o.before.written
    exact
      ⟨o, own?, since, hAt, hSplit, hSource.1, hSplit ▸ hSource.2,
        hNone⟩
  have hSince :
      ∀ {o : ElementStart α} {v : List (Operation α)},
        t.written = o.before.save.written ++ v →
          pre = o.before.written ++ .save :: (v ++ before) := by
    intro o v hSplit
    rw [hPre, hSplit, Surface.written_save]
    simp
  rcases Work.paints hWritten hPaint with
    ⟨g, rfl⟩ | ⟨state, data, rfl⟩ | ⟨run, matrix, layout, rfl⟩
  · cases hCalled with
    | figure hEnds =>
        rcases hActive.endsFigure_onPath hEnds with
          ⟨f, inner, owner, below, hOn⟩
        rcases hActive.openElement_geometry hOn with
          ⟨o, later, -, hOpen, hTraced⟩
        rcases hTraced.written with ⟨v, hSplit⟩
        rcases paintPath_source hWritten hPaint with
          ⟨pattern, hBrush, hSource⟩
        refine
          ⟨o, _, _, .figure hOpen hEnds hPre hPainted, hSince hSplit,
            fun x => ?_, ?_⟩
        · rw [hBrush, hSource]
          rfl
        · rw [hBrush]
          nofun
  · cases hCalled with
    | @path f _ _ _ _ _ _ hData hGood =>
        rcases hActive.openElement_top (.path f) rfl with
          ⟨o, later, -, hOpen, hTraced, -, -⟩
        rcases hTraced.written with ⟨w, hSplit⟩
        have hClipped :=
          Surface.written_clipToAny f.state.clip?
            (Work.apply (.rule f.state.fillRule) now.surface)
        rw [Work.apply, Surface.written_record, hSplit,
          List.append_assoc, List.append_assoc] at hClipped
        rcases paintPath_source hWritten hPaint with
          ⟨pattern, hBrush, hSource⟩
        refine
          ⟨o, _, _, .path hOpen (.path hData hGood) hPre hPainted,
            hSince hClipped, fun x => ?_, ?_⟩
        · rw [hBrush, hSource]
          rfl
        · rw [hBrush]
          nofun
  · cases hCalled with
    | @glyphs f _ _ _ _ _ _ _ _ hFont hLayout =>
        rcases hActive.openElement_top (.glyphs f) rfl with
          ⟨o, later, -, hOpen, hTraced, hFigure, -⟩
        have hNoFigure : ∀ g, .figure g ∉ o.marks ++ later := by
          intro g hMem
          rcases List.mem_append.mp hMem with hStart | hLater
          · exact o.figure_not_mem g hStart
          · cases hFigure g hLater
        rcases hTraced.source hNoFigure with ⟨w, hSplit, hSame⟩
        have hClipped :=
          Surface.written_clipToAny f.run.clip? now.surface
        rw [hSplit, List.append_assoc] at hClipped
        rcases GlyphRun.show_source hWritten hPaint with
          ⟨⟨text, rfl⟩, hBrush⟩
        refine
          ⟨o, _, _, .glyphs hOpen (.glyphs hFont hLayout) hPre hPainted,
            hSince hClipped, fun x => ?_, fun _ => ⟨_, _, _, rfl⟩⟩
        rw [Setting.takeAll_append, hBrush, Setting.takeAll_append,
          Setting.takeAll_anyClip, hSame]

end

------------------------------------------------------------
-- Glyphs without a brush
------------------------------------------------------------

namespace UnfilledGlyphs

/- A font with a single glyph. -/
def font : Font ℚ where
  glyph? _ := some 1
  metrics _ := ⟨1, ⟨0, 0, 1, 1⟩⟩
  ascent := 1
  descent := 0

/- It is the only font there is. -/
def environment : Environment ℚ :=
  { Environment.empty with loadFont := fun _ => .ok font }

/- A page with a glyph run that has no brush. -/
def page : List Item :=
  ([.startTag "FixedPage" [],
    .startTag "Glyphs"
      [⟨"FontUri", "/f.ttf"⟩, ⟨"FontRenderingEmSize", "10"⟩,
        ⟨"OriginX", "0"⟩, ⟨"OriginY", "0"⟩, ⟨"UnicodeString", "a"⟩],
    .endTag "Glyphs",
    .endTag "FixedPage"] : List Event).map
      fun tag => .ok (⟨"page", 1, 1⟩, tag)

/- What shows the only glyph. -/
def shown : Operation ℚ :=
  .showGlyphs ⟨10, 0, 0, 10, 0, 0⟩ ⟨[⟨1, ⟨0, 0⟩⟩], [⟨1, 1⟩]⟩ "a"

end UnfilledGlyphs

/- The glyph run is shown although it has no brush. -/
theorem UnfilledGlyphs.shown_unsourced :
    (renderItems UnfilledGlyphs.environment UnfilledGlyphs.page
        (.start .empty .empty .empty)).2.surface.written =
        [.save] ++ UnfilledGlyphs.shown :: [.restore] ∧
      ∃ o since,
        PaintedAt UnfilledGlyphs.environment
            (.ofPage UnfilledGlyphs.page) (.start .empty .empty .empty)
            [.save] UnfilledGlyphs.shown o none ∧
          [.save] = o.before.written ++ .save :: since ∧
          sourceInEffect? since = none := by
  have hOps :
      (renderItems UnfilledGlyphs.environment UnfilledGlyphs.page
        (.start .empty .empty .empty)).2.surface.written =
          [.save] ++ UnfilledGlyphs.shown :: [.restore] := by
    decide +kernel
  rcases renderItems_source UnfilledGlyphs.environment
      UnfilledGlyphs.page (.start .empty .empty .empty) [.save]
      [.restore] UnfilledGlyphs.shown hOps (Nat.zero_le _) rfl with
    ⟨o, own?, since, hAt, hSplit, hSince, hSource, -⟩
  have hNone : own? = none := by
    cases own? with
    | none => rfl
    | some pattern => cases hSource
  subst hNone
  exact ⟨hOps, o, since, hAt, hSplit, hSince⟩

end FixedPage
