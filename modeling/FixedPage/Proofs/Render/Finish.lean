import FixedPage.Proofs.Render.Start

/-
  This file says all that can happen when an element ends: what
  a frame makes of the product of a child, how a frame is
  finished, and how it is given up. Finished or given up, a
  frame closes the brackets that it holds open.

  Main declarations:
    * `Steady.Draws`
    * `Closes`
    * `Frame.Received`
    * `Frame.endChild_received`
    * `Frame.finish_outcome`
    * `Frame.abort_released`
-/

namespace FixedPage

variable {α : Type}

------------------------------------------------------------
-- Drawing
------------------------------------------------------------

section

variable [Scalar α]
variable (R : Bool → RenderState α → RenderState α → Prop)

/- Whatever the state, drawing is steady. -/
def Steady.Draws
    (t : Bool)
    (f : Surface α → Surface α) : Prop :=
  ∀ st, R t st (st.draw f)

end

namespace Steady.Draws

variable [Scalar α]
variable {R : Bool → RenderState α → RenderState α → Prop}
variable [Steady R] {t : Bool} {f g : Surface α → Surface α}

theorem comp
    (hFirst : Draws R t f)
    (hNext : Draws R t g) :
    Draws R t fun s => g (f s) :=
  fun st => Steady.trans (hFirst st) (hNext (st.draw f))

theorem record
    {op : Operation α}
    (hPlain : op.isPlain = true) :
    Draws R true (Surface.record op) :=
  fun st => Steady.record st op hPlain

theorem takeAll
    (steps : List (PathStep α)) :
    Draws R true (Surface.takeAll steps) :=
  Steady.takeAll steps

/- Drawing into a group of its own. -/
theorem grouped
    (hInner : Draws R true f) :
    Draws R t fun s => (f s.pushGroup).closeGroup :=
  fun st => Steady.bracket t .group (hInner (st.draw Surface.pushGroup))

/- A closed group becomes the source. -/
theorem groupedToSource
    (hInner : Draws R true f) :
    Draws R true fun s => (f s.pushGroup).popGroupToSource := by
  intro st
  have hSource :=
    Steady.record (R := R)
      (st.draw fun s => (f s.pushGroup).closeGroup)
      (.setSource (f st.surface.pushGroup).popGroup.1) rfl
  exact Steady.trans (hInner.grouped st) hSource

/- The current path is painted steadily. -/
theorem paintCurrent
    (state : PathState α)
    (filled : Bool) :
    Draws R true (FixedPage.paintCurrent state filled) := by
  unfold FixedPage.paintCurrent
  dsimp only
  split
  · exact
      (((record rfl).comp (record rfl)).comp (record rfl)).comp
        (record rfl)
  · exact (record rfl).comp (record rfl)
  · exact (record rfl).comp (record rfl)
  · exact record rfl

/- A path is painted steadily, with or without a mask. -/
theorem paintPath
    (path : PathBuilder α)
    (state : PathState α)
    (filled : Bool) :
    Draws R true (FixedPage.paintPath path state filled) := by
  have hPainted :
      Draws R true fun s =>
        FixedPage.paintCurrent state filled
          (s.newPath.takeAll path.steps) :=
    ((record rfl).comp (takeAll path.steps)).comp
      (paintCurrent state filled)
  unfold FixedPage.paintPath beginMask endMask
  cases state.mask? with
  | none => exact hPainted
  | some mask =>
      have hGroup :
          Draws R true fun s =>
            maskGroup (some mask)
              (FixedPage.paintCurrent state filled
                (s.pushGroup.newPath.takeAll path.steps)) :=
        hPainted.groupedToSource.comp (record rfl)
      cases state.maskExtents? path with
      | none => exact hGroup
      | some extents =>
          exact
            (((record rfl).comp (takeAll _)).comp
              (record rfl)).comp hGroup

end Steady.Draws

------------------------------------------------------------
-- Closing brackets
------------------------------------------------------------

section

variable [Scalar α]
variable (R : Bool → RenderState α → RenderState α → Prop)

/- Brackets are closed in order, with drawing in between. -/
inductive Closes :
    List Bracket → RenderState α → RenderState α → Prop
| done
    {st st' : RenderState α}
    (hAfter : R false st st') :
    Closes [] st st'
| leave
    {b : Bracket}
    {bs : List Bracket}
    {st inner st' : RenderState α}
    (hInner : R true st inner)
    (hRest : Closes bs (inner.draw b.leave) st') :
    Closes (b :: bs) st st'

/- Drawing may go before the closing of brackets. -/
theorem Closes.after
    [Steady R]
    {b : Bracket}
    {bs : List Bracket}
    {st inner st' : RenderState α}
    (hInner : R true st inner)
    (hCloses : Closes R (b :: bs) inner st') :
    Closes R (b :: bs) st st' := by
  cases hCloses with
  | leave hMore hRest =>
      exact .leave (Steady.trans hInner hMore) hRest

end

------------------------------------------------------------
-- Releasing
------------------------------------------------------------

namespace FrameOutline

/- The number of visual brushes that a frame has under way. -/
def visuals
    (o : FrameOutline) : Nat :=
  if o.kind = .visual then 1 else 0

end FrameOutline

/- Closes the dictionaries of a frame and its visual brush. -/
def RenderState.release
    (o : FrameOutline)
    (st : RenderState α) : RenderState α :=
  { st with
    scope := st.scope.popMany o.dictionaries
    visualDepth := st.visualDepth - o.visuals }

section

variable [Scalar α]
variable (R : Bool → RenderState α → RenderState α → Prop)

/- The brackets of a frame are closed and the frame is released. -/
def Frame.Released
    (frame : Frame α)
    (st st' : RenderState α) : Prop :=
  ∃ closed,
    Closes R frame.outline.brackets st closed ∧
      st' = closed.release frame.outline

/-
  What a frame makes of the product of a child, or of the end of
  an element that owns no frame, and what it makes of the state.
-/
inductive Frame.Received
    (frame : Frame α)
    (product : Product α)
    (st : RenderState α) :
    Frame α → RenderState α → Prop
| steady
    {frame' : Frame α}
    {st' : RenderState α}
    (hSame : frame'.outline = frame.outline)
    (hState : R frame.kind.turns st st') :
    Received frame product st frame' st'
| masked
    {frame' : Frame α}
    (hDraws : frame.kind.draws = true)
    (hFirst : frame.outline.hasMask = false)
    (hMasked :
      frame'.outline =
        { frame.outline with inMask := true, hasMask := true }) :
    Received frame product st frame' (st.draw Surface.pushGroup)
| visual
    {frame' : Frame α}
    (v : VisualBrush α)
    (hProduct : product = .visual v)
    (hKind : frame.kind = .brush)
    (hSame : frame'.outline = frame.outline) :
    Received frame product st frame'
      (st.draw fun s => s.closeGroup.restore)
| ended
    {frame' : Frame α}
    (hKind : frame.kind ∈ [.page, .visual])
    (hOutline :
      frame'.outline = { frame.outline with dictionaries := 0 }) :
    Received frame product st frame'
      (st.popDictionaries frame.outline.dictionaries)
| stored
    {frame' : Frame α}
    {st' : RenderState α}
    (hKind : frame.kind = .dictionary)
    (hSame : frame'.outline = frame.outline)
    (hState : st.SameOuter st') :
    Received frame product st frame' st'

/-
  How a frame is finished. A visual brush leaves its brackets to
  the brush that it belongs to; only paths and glyph runs fail.
-/
def Frame.Finish
    (frame : Frame α)
    (st : RenderState α) :
    Except Error (Product α) × RenderState α → Prop
| (.ok product, st') =>
    if frame.kind = .visual then
      (∃ v, product = .visual v) ∧ st' = st.release frame.outline
    else (∀ v, product ≠ .visual v) ∧ frame.Released R st st'
| (.error _, st') =>
    frame.kind ∈ [.path, .glyphs] ∧ R true st st'

end

------------------------------------------------------------
-- Ends of children
------------------------------------------------------------

section

variable [Scalar α]
variable {R : Bool → RenderState α → RenderState α → Prop}
variable [Steady R] (env : Environment α)

/- What a page or a visual brush makes of a child. -/
theorem ContentFrame.endChild_received
    (f : ContentFrame α)
    (name : String)
    (product : Product α)
    (st : RenderState α) :
    (Frame.content f).Received R product st
      (.content (f.endChild name product st).1)
      (f.endChild name product st).2 := by
  unfold endChild
  split
  · refine .ended ?_ rfl
    rw [Frame.kind_content]
    split <;> decide
  · refine .steady ?_ (Steady.refl _ st)
    simp [Frame.outline]
  · exact .steady rfl (Steady.refl _ st)

/- What a canvas makes of a child. -/
theorem CanvasFrame.endChild_received
    (f : CanvasFrame α)
    (name : String)
    (product : Product α)
    (st : RenderState α) :
    (Frame.canvas f).Received R product st
      (.canvas (f.endChild name product st).1)
      (f.endChild name product st).2 := by
  unfold endChild
  split
  · exact .steady rfl (Steady.transform st _)
  · cases hMask : takeMask f.mask? _ with
    | none => exact .steady rfl (Steady.refl _ st)
    | some mask =>
        refine .masked rfl ?_ rfl
        unfold takeMask at hMask
        split at hMask
        · simp [Frame.outline, *]
        · cases hMask
  · exact .steady rfl (Steady.refl _ st)

/- What a path makes of a child. -/
theorem PathFrame.endChild_received
    (f : PathFrame α)
    (name : String)
    (product : Product α)
    (st : RenderState α) :
    (Frame.path f).Received R product st
      (.path (f.endChild name product st).1)
      (f.endChild name product st).2 := by
  unfold endChild
  split
  · exact .steady rfl (Steady.refl _ st)
  · exact .steady rfl (Steady.refl _ st)
  · split <;> exact .steady rfl (Steady.refl _ st)
  · exact .steady rfl (Steady.transform st _)
  · exact .steady rfl (Steady.refl _ st)
  · exact .steady rfl (Steady.refl _ st)
  · exact .steady rfl (Steady.refl _ st)

/- What a geometry makes of a child. -/
theorem GeometryFrame.endChild_received
    (f : GeometryFrame α)
    (name : String)
    (product : Product α)
    (st : RenderState α) :
    (Frame.geometry f).Received R product st
      (.geometry (f.endChild name product st).1)
      (f.endChild name product st).2 := by
  unfold endChild
  split
  · exact .steady rfl (Steady.transform st _)
  · exact .steady rfl (Steady.Draws.paintPath _ f.state _ st)
  · exact .steady rfl (Steady.refl _ st)

/- What a glyph run makes of a child. -/
theorem GlyphsFrame.endChild_received
    (f : GlyphsFrame α)
    (name : String)
    (product : Product α)
    (st : RenderState α) :
    (Frame.glyphs f).Received R product st
      (.glyphs (f.endChild name product st).1)
      (f.endChild name product st).2 := by
  unfold endChild
  split
  · exact .steady rfl (Steady.transform st _)
  · exact .steady rfl (Steady.refl _ st)
  · cases hMask : takeMask f.run.mask? _ with
    | none => exact .steady rfl (Steady.refl _ st)
    | some mask =>
        refine .masked rfl ?_ rfl
        unfold takeMask at hMask
        split at hMask
        · simp [Frame.outline, *]
        · cases hMask
  · exact .steady rfl (Steady.refl _ st)

/- An image is loaded and painted steadily. -/
theorem ImageBrush.resolve_steady
    {t : Bool}
    (i : ImageBrush α)
    (st : RenderState α) :
    R t st (i.resolve env st).2 := by
  have hLoaded :
      R t st
        { st with
          images := (st.images.getOrLoad env.loadImage i.source).2 } :=
    Steady.caches t st st.fonts _ st.profiles
  unfold resolve
  dsimp only
  split
  · exact hLoaded
  · split
    · exact hLoaded
    · rename_i pattern hPattern
      split
      · exact hLoaded
      · have hGroup :
            Steady.Draws R t fun s : Surface α =>
              ((s.pushGroup.setSource pattern).record
                (.paintWithAlpha i.opacity)).closeGroup :=
          Steady.Draws.grouped
            ((Steady.Draws.record rfl).comp
              (Steady.Draws.record rfl))
        exact Steady.trans hLoaded (hGroup _)

/- What the brush of a property makes of its element. -/
theorem endBrush_received
    (pattern? : Option (Pattern α))
    (product : Product α)
    (st : RenderState α) :
    (Frame.brush pattern?).Received R product st
      (.brush (endBrush env pattern? product st).1)
      (endBrush env pattern? product st).2 := by
  unfold endBrush
  split
  · rename_i b
    cases b with
    | gradient g => exact .steady rfl (Steady.refl _ st)
    | image i => exact .steady rfl (i.resolve_steady env st)
  · exact .visual _ rfl rfl rfl
  · exact .steady rfl (Steady.refl _ st)

/- What any frame makes of the product of a child. -/
theorem Frame.endChild_received
    (frame : Frame α)
    (name : String)
    (product : Product α)
    (st : RenderState α) :
    frame.Received R product st
      (frame.endChild env name product st).1
      (frame.endChild env name product st).2 := by
  unfold Frame.endChild
  cases frame with
  | content f => exact f.endChild_received name product st
  | canvas f => exact f.endChild_received name product st
  | path f => exact f.endChild_received name product st
  | geometry f => exact f.endChild_received name product st
  | brush pattern? => exact endBrush_received env pattern? product st
  | gradient g => exact .steady rfl (Steady.refl _ st)
  | image i => exact .steady rfl (Steady.refl _ st)
  | glyphs f => exact f.endChild_received name product st
  | matrix m => exact .steady rfl (Steady.refl _ st)
  | resources remote => exact .steady rfl (Steady.refl _ st)
  | dictionary current? =>
      exact .stored rfl rfl (endEntry_sameOuter current? name st)

end

------------------------------------------------------------
-- Ends of owners
------------------------------------------------------------

section

variable [Scalar α]
variable {R : Bool → RenderState α → RenderState α → Prop}
variable [Steady R] (env : Environment α)

/- The function closes a group and may draw with it. -/
def ClosesGroup
    (R : Bool → RenderState α → RenderState α → Prop)
    (f : Surface α → Surface α) : Prop :=
  ∀ st : RenderState α, R true (st.draw Surface.closeGroup) (st.draw f)

namespace ClosesGroup

theorem drop :
    ClosesGroup R Surface.closeGroup :=
  fun _ => Steady.refl true _

theorem toSource :
    ClosesGroup R Surface.popGroupToSource :=
  fun st =>
    Steady.record (st.draw Surface.closeGroup)
      (.setSource st.surface.popGroup.1) rfl

theorem thenRecord
    {f : Surface α → Surface α}
    {op : Operation α}
    (hCloses : ClosesGroup R f)
    (hPlain : op.isPlain = true) :
    ClosesGroup R fun s => (f s).record op :=
  fun st =>
    Steady.trans (hCloses st)
      (Steady.record (st.draw f) op hPlain)

theorem mask
    (mask? : Option (Pattern α)) :
    ClosesGroup R (maskGroup mask?) := by
  cases mask? with
  | none => exact toSource
  | some mask => exact toSource.thenRecord rfl

theorem paint
    (opacity : α) :
    ClosesGroup R (paintGroup opacity) :=
  toSource.thenRecord rfl

end ClosesGroup

/- A group is closed before the brackets around it. -/
theorem Closes.group
    {f : Surface α → Surface α}
    {b : Bracket}
    {bs : List Bracket}
    {st st' : RenderState α}
    (hCloses : ClosesGroup R f)
    (hRest : Closes R (b :: bs) (st.draw f) st') :
    Closes R (.group :: b :: bs) st st' :=
  .leave (Steady.refl true st) (hRest.after R (hCloses st))

/- The groups of an element are closed before its save. -/
theorem Closes.element
    {inMask inOpacity : Bool}
    {closeMask closeOpacity : Surface α → Surface α}
    (hMask : ClosesGroup R closeMask)
    (hOpacity : ClosesGroup R closeOpacity)
    (st : RenderState α) :
    Closes R
      (((if inMask then [.group] else [])
        ++ (if inOpacity then [.group] else [])) ++ [.save])
      st
      (st.draw fun s =>
        (onlyIf inOpacity closeOpacity
          (onlyIf inMask closeMask s)).restore) := by
  have hSave :
      ∀ st : RenderState α,
        Closes R [.save] st (st.draw Surface.restore) :=
    fun st => .leave (Steady.refl true st) (.done (Steady.refl _ _))
  cases inMask <;> cases inOpacity
  · exact hSave st
  · exact .group hOpacity (hSave _)
  · exact .group hMask (hSave _)
  · exact .group hMask (.group hOpacity (hSave _))

/- An element that draws has its save open. -/
theorem FrameOutline.brackets_of_draws
    {o : FrameOutline}
    (hDraws : o.kind.draws = true) :
    o.brackets = o.groups ++ [.save] := by
  simp [brackets, hDraws]

/- A frame that does not draw and holds nothing is released. -/
theorem Frame.Released.bare
    {frame : Frame α}
    (hBare : frame.outline = .bare frame.kind)
    (hDraws : frame.kind.draws = false)
    (hKind : frame.kind ≠ .visual)
    (st : RenderState α) :
    frame.Released R st st := by
  refine ⟨st, ?_, ?_⟩
  · rw [hBare]
    have hNone :
        (FrameOutline.bare frame.kind).brackets = [] := by
      simp [FrameOutline.brackets, FrameOutline.bare, hDraws, hKind]
    rw [hNone]
    exact .done (Steady.refl false st)
  · rw [hBare]
    simp [RenderState.release, FrameOutline.bare,
      FrameOutline.visuals, hKind, ResourceScope.popMany]

/- Path data that is painted is steady. -/
theorem paintData_keeps
    (state : PathState α)
    (data : String) :
    Action.Keeps (R true) (paintData state data) := by
  unfold paintData
  refine
    .bind (fun st => Steady.record st (.setFillRule _) rfl)
      fun _ => .bind (clipToAny_keeps _) fun _ => ?_
  dsimp only
  split
  · exact .fail _
  · exact fun st => Steady.Draws.paintPath _ state true st

/- An element that draws is finished after drawing. -/
theorem Frame.Finish.after
    {frame : Frame α}
    {st inner : RenderState α}
    {outcome : Except Error (Product α) × RenderState α}
    (hDraws : frame.kind.draws = true)
    (hInner : R true st inner)
    (hFinish : frame.Finish R inner outcome) :
    frame.Finish R st outcome := by
  rcases outcome with ⟨fault | product, st'⟩
  · exact ⟨hFinish.1, Steady.trans hInner hFinish.2⟩
  · have hVisual : frame.kind ≠ .visual := by
      intro hKind
      rw [hKind] at hDraws
      cases hDraws
    simp only [Finish, if_neg hVisual] at hFinish ⊢
    rcases hFinish with ⟨hProduct, closed, hCloses, hState⟩
    refine ⟨hProduct, closed, ?_, hState⟩
    rw [FrameOutline.brackets_of_draws hDraws] at hCloses ⊢
    generalize hBrackets : frame.outline.groups ++ [.save] = bs
      at hCloses ⊢
    cases bs with
    | nil => simp at hBrackets
    | cons b bs => exact hCloses.after R hInner

/- An element that draws is finished by closing its groups. -/
theorem Frame.Finish.closed
    {frame : Frame α}
    {closeMask closeOpacity : Surface α → Surface α}
    (hDraws : frame.kind.draws = true)
    (hMask : ClosesGroup R closeMask)
    (hOpacity : ClosesGroup R closeOpacity)
    (st : RenderState α) :
    frame.Finish R st
      (.ok .none,
        (st.draw fun s =>
          (onlyIf frame.outline.inOpacity closeOpacity
            (onlyIf frame.outline.inMask closeMask
              s)).restore).release frame.outline) := by
  have hVisual : frame.kind ≠ .visual := by
    intro hKind
    rw [hKind] at hDraws
    cases hDraws
  simp only [Finish, if_neg hVisual]
  refine ⟨nofun, _, ?_, rfl⟩
  rw [FrameOutline.brackets_of_draws hDraws]
  exact Closes.element hMask hOpacity st

/- How a path is finished. -/
theorem PathFrame.finish_outcome
    (f : PathFrame α)
    (st : RenderState α) :
    (Frame.path f).Finish R st (f.finish.perform st) := by
  have hClosed :=
    fun st : RenderState α =>
      show (Frame.path f).Finish R st _ from
        .closed rfl .drop (.paint f.state.opacity) st
  unfold finish
  dsimp only
  split
  · rename_i data hData
    have hPaint := paintData_keeps (R := R) f.state data st
    rw [Action.perform_bind]
    generalize (paintData f.state data).perform st = outcome
      at hPaint ⊢
    rcases outcome with ⟨fault | u, st'⟩
    · exact ⟨by simp, hPaint⟩
    · exact .after rfl hPaint (hClosed st')
  · exact hClosed st

/- How a glyph run is finished. -/
theorem GlyphsFrame.finish_outcome
    (f : GlyphsFrame α)
    (st : RenderState α) :
    (Frame.glyphs f).Finish R st ((f.finish env).perform st) := by
  have hFont :
      Action.Keeps (R true) (f.run.loadFont env) :=
    fun st => Steady.caches true st _ st.images st.profiles
  have hFontState := hFont st
  unfold finish
  rw [Action.perform_bind]
  generalize (f.run.loadFont env).perform st = outcome
    at hFontState ⊢
  rcases outcome with ⟨fault | font, st₁⟩
  · exact ⟨by simp, hFontState⟩
  · have hClip :=
      clipToAny_keeps (R := R) f.run.clip? st₁
    refine .after rfl hFontState ?_
    dsimp only
    rw [Action.perform_bind]
    generalize
      (clipToAny f.run.clip? : Action α Unit).perform st₁ = outcome
      at hClip ⊢
    rcases outcome with ⟨fault | u, st₂⟩
    · exact ⟨by simp, hClip⟩
    · refine .after rfl hClip ?_
      dsimp only
      split
      · exact ⟨by simp, Steady.refl true st₂⟩
      · rename_i layout hLayout
        have hShow :
            Steady.Draws R true
              (f.run.show f.run.fontMatrix layout) := by
          unfold GlyphRun.show
          cases f.run.fill? with
          | none => exact .record rfl
          | some fill => exact (Steady.Draws.record rfl).comp (.record rfl)
        exact
          .after rfl (hShow st₂)
            (Frame.Finish.closed rfl (.mask f.run.mask?)
              (.paint f.run.opacity) _)

/- How any frame is finished. -/
theorem Frame.finish_outcome
    (frame : Frame α)
    (st : RenderState α) :
    frame.Finish R st ((frame.finish env).perform st) := by
  unfold Frame.finish
  cases frame with
  | content f =>
      rcases f with ⟨visual?, dictionaries⟩
      cases visual? with
      | some v => exact ⟨⟨v, rfl⟩, rfl⟩
      | none =>
          exact ⟨nofun, st, .done (Steady.refl false st), rfl⟩
  | canvas f =>
      have hClosed : (Frame.canvas f).Finish R st _ :=
        .closed rfl (.mask f.mask?) (.paint f.opacity) st
      exact hClosed
  | path f => exact f.finish_outcome st
  | glyphs f => exact f.finish_outcome env st
  | geometry f => exact ⟨nofun, .bare rfl rfl (by simp) st⟩
  | brush pattern? => exact ⟨nofun, .bare rfl rfl (by simp) st⟩
  | gradient g => exact ⟨nofun, .bare rfl rfl (by simp) st⟩
  | image i => exact ⟨nofun, .bare rfl rfl (by simp) st⟩
  | matrix m => exact ⟨nofun, .bare rfl rfl (by simp) st⟩
  | resources remote => exact ⟨nofun, .bare rfl rfl (by simp) st⟩
  | dictionary current? => exact ⟨nofun, .bare rfl rfl (by simp) st⟩

/- The frame of a page never fails to finish. -/
theorem Frame.finish_page
    {frame : Frame α}
    (hKind : frame.kind = .page)
    (st : RenderState α) :
    ∃ product st',
      (frame.finish env).perform st = (.ok product, st') := by
  cases frame with
  | content f => exact ⟨_, _, rfl⟩
  | _ => simp at hKind

/- An element that draws is given up by dropping its groups. -/
theorem Frame.Released.dropped
    (frame : Frame α)
    (hDraws : frame.kind.draws = true)
    (st : RenderState α) :
    frame.Released R st
      ((st.draw fun s =>
        (dropGroups frame.outline.inMask frame.outline.inOpacity
          s).restore).release frame.outline) := by
  refine ⟨_, ?_, rfl⟩
  rw [FrameOutline.brackets_of_draws hDraws]
  exact Closes.element .drop .drop st

/- A frame that is given up closes what it holds open. -/
theorem Frame.abort_released
    (frame : Frame α)
    (st : RenderState α) :
    frame.Released R st (frame.abort st) := by
  cases frame with
  | content f =>
      rcases f with ⟨visual?, dictionaries⟩
      cases visual? with
      | some v =>
          exact
            ⟨_, .leave (Steady.refl true st)
              (.leave (Steady.refl true _)
                (.done (Steady.refl false _))), rfl⟩
      | none => exact ⟨st, .done (Steady.refl false st), rfl⟩
  | canvas f => exact .dropped (.canvas f) rfl st
  | path f => exact .dropped (.path f) rfl st
  | glyphs f => exact .dropped (.glyphs f) rfl st
  | geometry f => exact .bare rfl rfl (by simp) st
  | brush pattern? => exact .bare rfl rfl (by simp) st
  | gradient g => exact .bare rfl rfl (by simp) st
  | image i => exact .bare rfl rfl (by simp) st
  | matrix m => exact .bare rfl rfl (by simp) st
  | resources remote => exact .bare rfl rfl (by simp) st
  | dictionary current? => exact .bare rfl rfl (by simp) st

end

end FixedPage
