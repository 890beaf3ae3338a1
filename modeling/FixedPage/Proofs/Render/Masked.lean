import FixedPage.Proofs.Render.Scope
import FixedPage.Proofs.Render.Tracing

/-
  This file says which clips are in effect where the mask of a
  figure is applied. The clip is narrowed to the box of the figure
  before the group of the mask is opened, so closing the group
  does not bring back the clip. The boxes of the figures before it
  on the same path are in effect as well.

  Main declarations:
    * `GeometryFrame.maskBoxes`
    * `Mark.narrows`
    * `Surface.Traced.clips`
    * `Active.figure_clips`
-/

namespace FixedPage

open Markup

variable {α : Type} [Scalar α]

------------------------------------------------------------
-- Masked paths
------------------------------------------------------------

/-
  The box that the clip is narrowed to before a path is drawn, if
  the path has a mask and is not empty.
-/
def PathState.maskBoxes
    (state : PathState α)
    (path : PathBuilder α) : List (List (Segment α)) :=
  match state.mask? with
  | none => []
  | some _ =>
      ((state.maskExtents? path).map PathBuilder.rectangle).toList

/- What is drawn of a path, without the group of its mask. -/
def drawnOperations
    (path : PathBuilder α)
    (state : PathState α)
    (filled : Bool) : List (Operation α) :=
  .newPath :: path.steps.map PathStep.operation
    ++ paintCurrentOperations state filled

section

variable (path : PathBuilder α) (state : PathState α) (filled : Bool)

omit [Scalar α] in
/- Drawing a path opens no brackets and makes no clip. -/
theorem drawnOperations_plain :
    ∀ op ∈ drawnOperations path state filled,
      op.isPlain = true ∧ op ≠ .clip := by
  intro op hMem
  unfold drawnOperations at hMem
  rw [List.cons_append, List.mem_cons, List.mem_append] at hMem
  rcases hMem with rfl | hStep | hPaint
  · exact ⟨rfl, by simp⟩
  · rcases List.mem_map.mp hStep with ⟨step, -, rfl⟩
    cases step <;> exact ⟨rfl, by simp [PathStep.operation]⟩
  · unfold paintCurrentOperations at hPaint
    split at hPaint <;>
      simp only [List.mem_cons, List.not_mem_nil, or_false] at hPaint
    · rcases hPaint with rfl | rfl | rfl | rfl <;>
        exact ⟨rfl, by simp⟩
    · rcases hPaint with rfl | rfl <;> exact ⟨rfl, by simp⟩
    · rcases hPaint with rfl | rfl <;> exact ⟨rfl, by simp⟩
    · subst hPaint
      exact ⟨rfl, by simp⟩

/- What is written before the mask of a path is applied. -/
theorem Surface.written_maskedPath
    (s : Surface α) :
    ∃ layer group,
      (s.maskedPath path state filled).written =
        s.written ++ (beginMaskOperations state path
          ++ drawnOperations path state filled
          ++ [.popGroup layer, .setSource group]) := by
  have hDrawn :
      (paintCurrent state filled
          ((beginMask state path s).newPath.takeAll path.steps)).written =
        s.written ++ (beginMaskOperations state path
          ++ drawnOperations path state filled) := by
    rw [written_paintCurrent, written_takeAll, written_newPath,
      written_beginMask, drawnOperations]
    simp
  unfold maskedPath
  generalize
    paintCurrent state filled
      ((beginMask state path s).newPath.takeAll path.steps) = drawn
    at hDrawn ⊢
  refine ⟨drawn.topLayer, drawn.popGroup.1, ?_⟩
  change (drawn.closeGroup.setSource drawn.popGroup.1).written = _
  rw [written_setSource, written_closeGroup, hDrawn]
  simp

/-
  Before a group is opened for the mask of a path, the clip is
  narrowed to the box of the path.
-/
theorem Setting.clips_maskedPath
    {mask : Pattern α}
    (hMask : state.mask? = some mask)
    (layer : Layer)
    (group : Pattern α)
    (x : Setting (Clipping α)) :
    (x.takeAll changeClipping
        (beginMaskOperations state path
          ++ drawnOperations path state filled
          ++ [.popGroup layer, .setSource group])).current.clips =
      state.maskBoxes path ++ x.current.clips := by
  have hPlain :
      ∀ op ∈ drawnOperations path state filled, op.isPlain = true :=
    fun op hMem => (drawnOperations_plain path state filled op hMem).1
  have hGroup :
      ∀ y : Setting (Clipping α),
        (y.takeAll changeClipping
            (.pushGroup :: drawnOperations path state filled
              ++ [.popGroup layer, .setSource group])).current.clips =
          y.current.clips := by
    intro y
    have hSplit :
        (.pushGroup :: drawnOperations path state filled
            ++ [.popGroup layer, .setSource group] :
              List (Operation α)) =
          (.pushGroup :: drawnOperations path state filled
            ++ [.popGroup layer]) ++ [.setSource group] := by
      simp
    rw [hSplit, takeAll_append, takeAll_group _ hPlain]
    rfl
  unfold beginMaskOperations PathState.maskBoxes
  rw [hMask]
  dsimp only
  rw [List.append_assoc, List.append_assoc, takeAll_append]
  refine (hGroup _).trans ?_
  cases state.maskExtents? path with
  | none => rfl
  | some box =>
      rw [Option.elim_some, takeAll_boxOperations]
      rfl

/- A path that is painted leaves its box in effect. -/
theorem Surface.clips_paintPath
    (s : Surface α) :
    ∃ w,
      (paintPath path state filled s).written = s.written ++ w ∧
        ∀ x : Setting (Clipping α),
          (x.takeAll changeClipping w).current.clips =
            state.maskBoxes path ++ x.current.clips := by
  cases hMask : state.mask? with
  | none =>
      rcases written_paintPath path state filled s with
        ⟨ends, hEnds, hWritten⟩
      unfold EndsMask at hEnds
      unfold beginMaskOperations at hWritten
      rw [hMask] at hEnds hWritten
      subst hEnds
      rw [List.nil_append, List.append_nil] at hWritten
      refine ⟨_, hWritten, fun x => ?_⟩
      rw [PathState.maskBoxes, hMask]
      exact
        x.clips_takeAll (drawnOperations_plain path state filled)
  | some mask =>
      rcases s.written_maskedPath path state filled with
        ⟨layer, group, hWritten⟩
      have hPainted :
          (paintPath path state filled s).written =
            (s.maskedPath path state filled).written ++ [.mask mask] := by
        rw [paintPath_masked path filled s hMask, written_record]
      rw [hWritten, List.append_assoc] at hPainted
      refine ⟨_, hPainted, fun x => ?_⟩
      rw [Setting.takeAll_append]
      exact x.clips_maskedPath path state filled hMask layer group

end

------------------------------------------------------------
-- Marks
------------------------------------------------------------

/- The box of a figure, if there is a mask to apply to it. -/
def GeometryFrame.maskBoxes
    (g : GeometryFrame α) : List (List (Segment α)) :=
  g.state.maskBoxes g.drawn

namespace Mark

/- The clips that a step makes, the latest first. -/
def narrows : Mark α → List (List (Segment α))
| .clip data => clipPaths data
| .figure g => g.maskBoxes
| _ => []

omit [Scalar α] in
/- The step narrows the clip to path data. -/
def isClip : Mark α → Bool
| .clip _ => true
| _ => false

/- A step leaves the clips that it makes in effect. -/
theorem clips
    (mark : Mark α)
    (s : Surface α) :
    ∃ w,
      (mark.apply s).written = s.written ++ w ∧
        ∀ x : Setting (Clipping α),
          (x.takeAll changeClipping w).current.clips =
            mark.narrows ++ x.current.clips := by
  cases mark with
  | turn m => exact ⟨_, s.written_transform m, fun x => rfl⟩
  | group => exact ⟨_, s.written_pushGroup, fun x => rfl⟩
  | rule r => exact ⟨_, s.written_record _, fun x => rfl⟩
  | clip data =>
      exact ⟨_, s.written_clipTo data, fun x => x.clips_clipOperations data⟩
  | figure g => exact s.clips_paintPath g.drawn g.state g.state.isFilled

end Mark

/- The clips that some steps make, the latest first. -/
def narrowedBy : List (Mark α) → List (List (Segment α))
| [] => []
| mark :: rest => narrowedBy rest ++ mark.narrows

/- The clips of later steps come first. -/
theorem narrowedBy_append
    (marks marks' : List (Mark α)) :
    narrowedBy (marks ++ marks') =
      narrowedBy marks' ++ narrowedBy marks := by
  induction marks with
  | nil => simp [narrowedBy]
  | cons mark rest ih =>
      rw [List.cons_append, narrowedBy, ih, narrowedBy,
        List.append_assoc]

/- Leaving steps out, some of the clips are left. -/
theorem narrowedBy_filter_sublist
    (p : Mark α → Bool)
    (marks : List (Mark α)) :
    (narrowedBy (marks.filter p)).Sublist (narrowedBy marks) := by
  induction marks with
  | nil => exact .slnil
  | cons mark rest ih =>
      by_cases hKept : p mark = true
      · rw [List.filter_cons_of_pos hKept]
        exact ih.append (.refl _)
      · rw [List.filter_cons_of_neg hKept]
        exact ih.trans (List.sublist_append_left _ _)

/-
  The steps that narrow the clip to path data make all the clips
  exactly if no figure has left a box.
-/
theorem narrowedBy_filter_isClip
    {marks : List (Mark α)} :
    narrowedBy marks = narrowedBy (marks.filter (·.isClip)) ↔
      ∀ g, .figure g ∈ marks → g.maskBoxes = [] := by
  induction marks with
  | nil => simp [narrowedBy]
  | cons mark rest ih =>
      have hOther :
          mark.narrows = [] →
            mark.isClip = false →
              (narrowedBy (mark :: rest) =
                  narrowedBy ((mark :: rest).filter (·.isClip)) ↔
                ∀ g, .figure g ∈ rest → g.maskBoxes = []) := by
        intro hNone hClip
        rw [List.filter_cons_of_neg (by simp [hClip]), narrowedBy,
          hNone, List.append_nil]
        exact ih
      cases mark with
      | turn m => simpa using hOther rfl rfl
      | group => simpa using hOther rfl rfl
      | rule r => simpa using hOther rfl rfl
      | clip data =>
          rw [List.filter_cons_of_pos rfl, narrowedBy, narrowedBy,
            List.append_cancel_right_eq, ih]
          simp
      | figure g =>
          have hShorter :=
            (narrowedBy_filter_sublist (·.isClip) rest).length_le
          rw [List.filter_cons_of_neg (by simp [Mark.isClip]),
            narrowedBy]
          constructor
          · intro hSame
            have hLength := congrArg List.length hSame
            rw [List.length_append] at hLength
            have hNone : g.maskBoxes = [] :=
              List.eq_nil_of_length_eq_zero (by
                change _ + g.maskBoxes.length = _ at hLength
                omega)
            rw [Mark.narrows, hNone, List.append_nil, ih] at hSame
            intro g' hMem
            rcases List.mem_cons.mp hMem with hIs | hRest
            · cases hIs
              exact hNone
            · exact hSame g' hRest
          · intro hNone
            rw [Mark.narrows, hNone g (by simp), List.append_nil, ih]
            exact fun g' hMem => hNone g' (by simp [hMem])

/- The marks of an element make all the clips that are left. -/
theorem Surface.Traced.clips
    {s t : Surface α}
    {marks : List (Mark α)}
    (hTraced : s.Traced marks t) :
    ∃ w,
      t.written = s.written ++ w ∧
        ∀ x : Setting (Clipping α),
          (x.takeAll changeClipping w).current.clips =
            narrowedBy marks ++ x.current.clips := by
  have hFold :
      ∀ clips : List (List (Segment α)),
        marks.foldl (fun c mark => mark.narrows ++ c) clips =
          narrowedBy marks ++ clips := by
    clear hTraced
    induction marks with
    | nil => exact fun clips => rfl
    | cons mark rest ih =>
        intro clips
        rw [List.foldl_cons, ih, narrowedBy, List.append_assoc]
  rcases
    hTraced.setting Clipping.clips (fun mark c => mark.narrows ++ c)
      fun mark _ s => mark.clips s with
    ⟨w, hWritten, hClips⟩
  exact ⟨w, hWritten, fun x => (hClips x).trans (hFold _)⟩

------------------------------------------------------------
-- Masked figures
------------------------------------------------------------

section

variable {env : Environment α} {items : List Item}
variable {st₀ st : RenderState α} {outer : List (Run α)}
variable {g : GeometryFrame α} {stack : Stack α}

/- Only a canvas narrows the clip when it starts. -/
theorem OpenElement.clip?_eq_none
    {first run : Run α}
    {owner : Nat}
    {below : List (Entry α)}
    {o : ElementStart α}
    {later : List (Mark α)}
    (hOpen : OpenElement env first st₀ outer owner below o later run st)
    (hKind : o.kind ≠ .canvas) :
    o.clip? = none := by
  cases hOpen with
  | intro _ _ hBegun _ =>
      by_contra hSome
      exact hKind (hBegun.canvas (Option.isSome_iff_ne_none.mpr hSome))

/- Without a clip, the start of an element makes no clips. -/
theorem ElementStart.narrowedBy_marks
    {o : ElementStart α}
    (hClip : o.clip? = none) :
    narrowedBy o.marks = [] := by
  have hTurns :
      ∀ turns : List (Matrix α),
        narrowedBy (turns.map .turn) = [] := by
    intro turns
    induction turns with
    | nil => rfl
    | cons m rest ih =>
        rw [List.map_cons, narrowedBy, ih]
        rfl
  unfold marks startMarks FrameOutline.marks
  rw [hClip, Option.toList_none, List.map_nil, List.append_nil,
    narrowedBy_append, narrowedBy_append, hTurns]
  cases o.frame.outline.inOpacity <;>
    cases o.frame.outline.inMask <;> rfl

/- The end of a figure with a mask applies it. -/
theorem Stack.EndsFigure.feed_masked
    (env : Environment α)
    (place : Location)
    (st : RenderState α)
    {mask : Pattern α}
    (hEnds : stack.EndsFigure g)
    (hMask : g.state.mask? = some mask) :
    ∃ stack',
      stack.feed env (FixedPage.startElement env (pageBrush env)) place st
          (.endTag "PathFigure") =
        ⟨.ok none, stack',
          st.draw fun s => (g.masked s).record (.mask mask)⟩ := by
  have hDrawn :
      ({ st with surface := (g.endFigure st.surface).2 } :
          RenderState α) =
        st.draw fun s => (g.masked s).record (.mask mask) := by
    have hPainted :=
      Surface.paintPath_masked g.drawn g.state.isFilled st.surface hMask
    exact congrArg (fun s => { st with surface := s }) hPainted
  cases hEnds with
  | @inside owner depth below hOwner =>
      refine
        ⟨⟨⟨.geometry (g.endFigure st.surface).1, owner⟩ :: below,
          depth - 1⟩, ?_⟩
      rw [← hDrawn, Stack.feed, Stack.endElement]
      dsimp only
      rw [if_pos (by simpa using hOwner)]
      rfl
  | @after m owner depth below =>
      refine
        ⟨⟨⟨.geometry (g.endFigure st.surface).1, owner⟩ :: below,
          depth - 1⟩, ?_⟩
      rw [← hDrawn, Stack.feed, Stack.endElement]
      dsimp only
      rw [if_neg (by simp)]
      rfl

/-
  Where the mask of a figure is applied, the clips that have been
  made since the save of its path are the box of the figure and
  whatever the path has narrowed the clip to before: the clip of
  the path, and the boxes of the figures that have ended. So the
  box of the figure and the clip of the path alone are in effect
  exactly if no figure before it has left a box.
-/
theorem Active.figure_clips
    {place : Location}
    {rest : List Item}
    {mask : Pattern α}
    (hActive :
      Active env (.ofPage items) st₀
        (⟨.page, stack,
          some (.ok (place, .endTag "PathFigure") :: rest)⟩ :: outer)
        st)
    (hEnds : stack.EndsFigure g)
    (hMask : g.state.mask? = some mask) :
    ∃ o later f inner owner below stack' since,
      o.kind = .path ∧
        OpenElement env (.ofPage items) st₀ outer owner below o later
          ⟨.page, stack,
            some (.ok (place, .endTag "PathFigure") :: rest)⟩ st ∧
        stack.OnGeometry g inner (⟨.path f, owner⟩ :: below) ∧
        stack.feed env (startElement env (pageBrush env)) place st
            (.endTag "PathFigure") =
          ⟨.ok none, stack',
            st.draw fun s => (g.masked s).record (.mask mask)⟩ ∧
        (g.masked st.surface).written =
          o.before.written ++ .save :: since ∧
        clipsInEffect since = g.maskBoxes ++ narrowedBy later ∧
        (clipsInEffect since =
            g.maskBoxes ++ narrowedBy (later.filter (·.isClip)) ↔
          ∀ g', .figure g' ∈ later → g'.maskBoxes = []) := by
  rcases hActive.endsFigure_onPath hEnds with
    ⟨f, inner, owner, below, hOn⟩
  rcases hActive.openElement_geometry hOn with
    ⟨o, later, hKind, hOpen, hTraced⟩
  rcases hEnds.feed_masked env place st hMask with ⟨stack', hFed⟩
  rcases hTraced.clips with ⟨w, hBefore, hClips⟩
  rcases
    st.surface.written_maskedPath g.drawn g.state g.state.isFilled with
    ⟨layer, group, hMasked⟩
  have hEffect :
      clipsInEffect
          (w ++ (beginMaskOperations g.state g.drawn
            ++ drawnOperations g.drawn g.state g.state.isFilled
            ++ [.popGroup layer, .setSource group])) =
        g.maskBoxes ++ narrowedBy later := by
    rw [clipsInEffect, Setting.takeAll_append,
      Setting.clips_maskedPath _ _ _ hMask, hClips, narrowedBy_append,
      ElementStart.narrowedBy_marks
        (hOpen.clip?_eq_none (by rw [hKind]; decide))]
    simp [GeometryFrame.maskBoxes]
  refine
    ⟨o, later, f, inner, owner, below, stack', _, hKind, hOpen, hOn,
      hFed, ?_, hEffect, ?_⟩
  · change (st.surface.maskedPath _ _ _).written = _
    rw [hMasked, hBefore, Surface.written_save]
    simp
  · rw [hEffect, List.append_cancel_left_eq]
    exact narrowedBy_filter_isClip

end

------------------------------------------------------------
-- Two figures with a mask
------------------------------------------------------------

namespace MaskedFigures

/- A triangle. -/
def figure
    (start points : String) : List Event :=
  [.startTag "PathFigure" [⟨"StartPoint", start⟩],
    .startTag "PolyLineSegment" [⟨"Points", points⟩],
    .endTag "PolyLineSegment",
    .endTag "PathFigure"]

/- A path with a mask and two figures, before the last one ends. -/
def tags : List Event :=
  [.startTag "FixedPage" [],
    .startTag "Path"
      [⟨"Fill", "#FF0000"⟩, ⟨"OpacityMask", "#80000000"⟩],
    .startTag "Path.Data" [],
    .startTag "PathGeometry" []]
      ++ figure "0,0" "5,0 5,5"
      ++ (figure "20,0" "25,0 25,5").dropLast

/- What the page begins with. -/
def head : List (Location × Event) :=
  tags.map (Prod.mk ⟨"page", 1, 1⟩)

/- The end of the page. -/
def tail : List Item :=
  ["PathFigure", "PathGeometry", "Path.Data", "Path",
    "FixedPage"].map fun name => .ok (⟨"page", 1, 1⟩, .endTag name)

/- A page with the path. -/
def page : List Item :=
  head.map .ok ++ tail

/- The state before the page is drawn. -/
def start : RenderState ℚ :=
  .start .empty .empty .empty

/- The page before the last figure ends. -/
def opened : Fed ℚ :=
  Stack.feedAll .empty (Script.page.handler .empty)
    (.ofPart (.content ⟨none, 0⟩)) start head

/- The geometry, which is on top of the stack by then. -/
def geometry : GeometryFrame ℚ :=
  match opened.stack.entries with
  | ⟨.geometry g, _⟩ :: _ => g
  | _ => ⟨.initial, .empty⟩

end MaskedFigures

/- The box of the first figure is in effect for the second one. -/
theorem MaskedFigures.box_stays :
    MaskedFigures.geometry.maskBoxes =
        [PathBuilder.rectangle ⟨20, 0, 5, 5⟩] ∧
      ∃ o later owner below since,
        OpenElement .empty (.ofPage MaskedFigures.page)
            MaskedFigures.start [] owner below o later
            ⟨.page, MaskedFigures.opened.stack,
              some MaskedFigures.tail⟩
            MaskedFigures.opened.state ∧
          (MaskedFigures.geometry.masked
              MaskedFigures.opened.state.surface).written =
            o.before.written ++ .save :: since ∧
          narrowedBy later = [PathBuilder.rectangle ⟨0, 0, 5, 5⟩] ∧
          clipsInEffect since =
            [PathBuilder.rectangle ⟨20, 0, 5, 5⟩,
              PathBuilder.rectangle ⟨0, 0, 5, 5⟩] := by
  have hGoes :
      ∀ fed : Fed ℚ,
        fed.result.toOption = some none →
          fed = ⟨.ok none, fed.stack, fed.state⟩ := by
    rintro ⟨fault | product?, stack, st⟩ hResult
    · cases hResult
    · cases hResult
      rfl
  have hOpened := hGoes MaskedFigures.opened (by decide +kernel)
  have hStack :
      MaskedFigures.opened.stack =
        ⟨⟨.geometry MaskedFigures.geometry, 4⟩
          :: MaskedFigures.opened.stack.entries.tail, 5⟩ := by
    decide +kernel
  have hMask : MaskedFigures.geometry.state.mask?.isSome = true := by
    decide +kernel
  have hBox :
      MaskedFigures.geometry.maskBoxes =
        [PathBuilder.rectangle ⟨20, 0, 5, 5⟩] := by
    decide +kernel
  have hOnce :
      .save ∉
        (MaskedFigures.geometry.masked
          MaskedFigures.opened.state.surface).written.tail := by
    decide +kernel
  have hClips :
      clipsInEffect
          (MaskedFigures.geometry.masked
            MaskedFigures.opened.state.surface).written.tail =
        [PathBuilder.rectangle ⟨20, 0, 5, 5⟩,
          PathBuilder.rectangle ⟨0, 0, 5, 5⟩] := by
    decide +kernel
  have hActive :
      Active .empty (.ofPage MaskedFigures.page) MaskedFigures.start
        [⟨.page, MaskedFigures.opened.stack, some MaskedFigures.tail⟩]
        MaskedFigures.opened.state :=
    Active.feedAll .start hOpened
  have hEnds :
      MaskedFigures.opened.stack.EndsFigure MaskedFigures.geometry := by
    rw [hStack]
    exact .inside (by decide)
  rcases Option.isSome_iff_exists.mp hMask with ⟨mask, hMask⟩
  rcases Active.figure_clips hActive hEnds hMask with
    ⟨o, later, _, _, owner, below, _, since, -, hOpen, -, -, hWritten,
      hEffect, -⟩
  rw [hWritten] at hOnce hClips
  cases hBefore : o.before.written with
  | nil =>
      rw [hBefore, List.nil_append, List.tail_cons] at hClips
      rw [hClips, hBox] at hEffect
      exact
        ⟨hBox, o, later, owner, below, since, hOpen, hWritten,
          (List.cons.inj hEffect).2.symm, hClips⟩
  | cons op before =>
      rw [hBefore] at hOnce
      simp at hOnce

end FixedPage
