import FixedPage.Proofs.Parallel.Relation
import FixedPage.Render.Closing

/-
  This file shows that two runs side by side end the same elements
  alike, and that a frame paints with nothing but what was given
  to it.

  Main declarations:
    * `Frame.patterns`
    * `Product.patterns`
    * `Frame.endChild_agrees`
    * `Frame.finish_agrees`
    * `Frame.abort_relates`
-/

namespace FixedPage

variable {α : Type}

------------------------------------------------------------
-- Patterns of frames
------------------------------------------------------------

/- What a glyph run is painted with. -/
def GlyphRun.patterns
    (run : GlyphRun α) : List (Pattern α) :=
  run.fill?.toList ++ run.mask?.toList

namespace GlyphRun

variable (run : GlyphRun α)

theorem fill_subset : run.fill?.toList ⊆ run.patterns := by
  simp [patterns]

theorem mask_subset : run.mask?.toList ⊆ run.patterns := by
  simp [patterns]

variable {run} {ps : List (Pattern α)}

theorem patterns_subset
    (hFill : run.fill?.toList ⊆ ps)
    (hMask : run.mask?.toList ⊆ ps) :
    run.patterns ⊆ ps :=
  List.append_subset.mpr ⟨hFill, hMask⟩

end GlyphRun

/- What is painted with while a frame is on the stack. -/
def Frame.patterns : Frame α → List (Pattern α)
| .canvas f => f.mask?.toList
| .path f => f.state.patterns
| .geometry f => f.state.patterns
| .brush pattern? => pattern?.toList
| .glyphs f => f.run.patterns
| _ => []

/- What a product is painted with. -/
def Product.patterns : Product α → List (Pattern α)
| .pattern pattern? => pattern?.toList
| .path state => state.patterns
| _ => []

------------------------------------------------------------
-- Changes
------------------------------------------------------------

/- A change of the state is the same on both sides. -/
def Likeness.Changes
    {β : Type}
    (L : Likeness α)
    (given : List (Pattern α))
    (shows : β → List (Pattern α))
    (f : RenderState α → β × RenderState α) : Prop :=
  ∀ st st',
    L.Relates st st' →
      Shown st.surface.written given →
        L.Outcome shows st ((f st).map .ok id) ((f st').map .ok id)

namespace Likeness.Changes

variable {β γ : Type} {L : Likeness α} {given : List (Pattern α)}
variable {shows : β → List (Pattern α)}

/- Nothing but the result is new. -/
theorem same
    {b : β}
    (hShows : shows b ⊆ given) :
    L.Changes given shows fun st => (b, st) :=
  fun _ _ hStates hGiven =>
    .ok hStates List.prefix_rfl fun p hMem => hGiven p (hShows hMem)

/- The surface is drawn on. -/
theorem draw
    {b : β}
    {f : Surface α → Surface α}
    (hDraws : ∀ s : Surface α, s.Draws given (f s))
    (hShows : shows b ⊆ given) :
    L.Changes given shows fun st => (b, st.draw f) :=
  fun st _ hStates hGiven =>
    have hDrawn := hDraws st.surface
    .ok (hStates.draw hDrawn hGiven) hDrawn.grows fun p hMem =>
      hGiven.later hDrawn.grows p (hShows hMem)

/- The scope is changed. -/
theorem rescope
    {b : β}
    (f : ResourceScope → ResourceScope)
    (hShows : shows b ⊆ given) :
    L.Changes given shows fun st =>
      (b, { st with scope := f st.scope }) :=
  fun _ _ hStates hGiven =>
    .ok (hStates.rescope f) List.prefix_rfl fun p hMem =>
      hGiven p (hShows hMem)

/- The result is used. -/
theorem map
    {f : RenderState α → β × RenderState α}
    {shows' : γ → List (Pattern α)}
    (g : β → γ)
    (hChanges : L.Changes given shows f)
    (hShows : ∀ b, shows' (g b) ⊆ shows b ++ given) :
    L.Changes given shows' fun st => (f st).map g id := by
  intro st st' hStates hGiven
  have hOutcome := hChanges st st' hStates hGiven
  dsimp only
  generalize f st = outcome at hOutcome ⊢
  generalize f st' = outcome' at hOutcome ⊢
  rcases outcome with ⟨b, now⟩
  rcases outcome' with ⟨b', now'⟩
  cases hOutcome with
  | ok hState hGrows hShown =>
      refine .ok hState hGrows fun p hMem => ?_
      rcases List.mem_append.mp (hShows b hMem) with hNew | hOld
      · exact hShown p hNew
      · exact hGiven.later hGrows p hOld

end Likeness.Changes

------------------------------------------------------------
-- Ends of children
------------------------------------------------------------

section

variable [Scalar α] {L : Likeness α}
variable (name : String) (product : Product α)

omit [Scalar α] in
/- What a page or a visual brush makes of a child. -/
theorem ContentFrame.endChild_agrees
    (f : ContentFrame α) :
    L.Changes product.patterns (fun _ => [])
      (f.endChild name product) := by
  unfold endChild
  split
  · exact
      .rescope (fun scope => scope.popMany f.dictionaries)
        (List.nil_subset _)
  · exact .same (List.nil_subset _)
  · exact .same (List.nil_subset _)

omit [Scalar α] in
/- A mask is the product that is taken for it. -/
theorem takeMask_patterns
    {known? : Option (Pattern α)}
    {product : Product α}
    {mask : Pattern α}
    (hMask : takeMask known? product = some mask) :
    product.patterns = [mask] := by
  unfold takeMask at hMask
  split at hMask
  · cases hMask
    rfl
  · cases hMask

/- What a canvas makes of a child. -/
theorem CanvasFrame.endChild_agrees
    (f : CanvasFrame α) :
    L.Changes (f.mask?.toList ++ product.patterns)
      (fun f' => f'.mask?.toList) (f.endChild name product) := by
  have hOwn : f.mask?.toList ⊆ f.mask?.toList ++ product.patterns :=
    List.subset_append_left _ _
  unfold endChild
  split
  · exact .draw (.transform _) hOwn
  · cases hMask : takeMask f.mask? _ with
    | none => exact .same hOwn
    | some mask =>
        refine .draw .pushGroup ?_
        rw [takeMask_patterns hMask]
        exact List.subset_append_right _ _
  · exact .same hOwn

/- What a path makes of a child. -/
theorem PathFrame.endChild_agrees
    (f : PathFrame α) :
    L.Changes (f.state.patterns ++ product.patterns)
      (fun f' => f'.state.patterns) (f.endChild name product) := by
  have hOwn :
      f.state.patterns ⊆ f.state.patterns ++ product.patterns :=
    List.subset_append_left _ _
  have hNew : product.patterns ⊆ f.state.patterns ++ product.patterns :=
    List.subset_append_right _ _
  have hFill := List.Subset.trans f.state.fill_subset hOwn
  have hStroke := List.Subset.trans f.state.stroke_subset hOwn
  have hMask := List.Subset.trans f.state.mask_subset hOwn
  unfold endChild
  split
  · exact .same (PathState.patterns_subset hNew hStroke hMask)
  · exact .same (PathState.patterns_subset hFill hNew hMask)
  · split
    · exact .same (PathState.patterns_subset hFill hStroke hNew)
    · exact .same hOwn
  · exact .draw (.transform _) hOwn
  · exact .same hNew
  · exact .same hOwn
  · exact .same hOwn

/- What a geometry makes of a child. -/
theorem GeometryFrame.endChild_agrees
    (f : GeometryFrame α) :
    L.Changes (f.state.patterns ++ product.patterns)
      (fun f' => f'.state.patterns) (f.endChild name product) := by
  have hOwn :
      f.state.patterns ⊆ f.state.patterns ++ product.patterns :=
    List.subset_append_left _ _
  unfold endChild
  split
  · exact .draw (.transform _) hOwn
  · have hFigure (s : Surface α) :
        s.Draws (f.state.patterns ++ product.patterns)
          (f.endFigure s).2 :=
      (Surface.Draws.paintPath f.state _ _ s).weaken hOwn
    refine Likeness.Changes.draw hFigure ?_
    exact hOwn
  · exact .same hOwn

/- What a glyph run makes of a child. -/
theorem GlyphsFrame.endChild_agrees
    (f : GlyphsFrame α) :
    L.Changes (f.run.patterns ++ product.patterns)
      (fun f' => f'.run.patterns) (f.endChild name product) := by
  have hOwn :
      f.run.patterns ⊆ f.run.patterns ++ product.patterns :=
    List.subset_append_left _ _
  have hNew : product.patterns ⊆ f.run.patterns ++ product.patterns :=
    List.subset_append_right _ _
  have hFill := List.Subset.trans f.run.fill_subset hOwn
  have hMask := List.Subset.trans f.run.mask_subset hOwn
  unfold endChild
  split
  · exact .draw (.transform _) hOwn
  · exact .same (GlyphRun.patterns_subset hNew hMask)
  · cases hTaken : takeMask f.run.mask? _ with
    | none => exact .same hOwn
    | some mask =>
        rw [takeMask_patterns hTaken] at hFill hNew ⊢
        exact .draw .pushGroup (GlyphRun.patterns_subset hFill hNew)
  · exact .same hOwn

/- The pattern of an image shows the image. -/
theorem ImageBrush.settled_pattern
    {i : ImageBrush α}
    {image : Image α}
    {pattern : Pattern α}
    (hPattern : i.pattern? image = some pattern)
    (w : List (Operation α)) :
    Shown w [pattern] := by
  rcases Option.map_eq_some_iff.mp hPattern with ⟨m, -, rfl⟩
  exact Shown.cons_iff.mpr ⟨trivial, Shown.nil⟩

/- An image is loaded and painted alike. -/
theorem ImageBrush.resolve_agrees
    {env : Environment α}
    (hImages : Cache.Serves env.loadImage L.images)
    (i : ImageBrush α)
    (given : List (Pattern α)) :
    L.Changes given Option.toList (i.resolve env) := by
  intro st st' hStates _
  rcases hImages i.source _ _ hStates.images with ⟨hLoaded, hLater⟩
  have hState :
      L.Relates
        { st with
          images := (st.images.getOrLoad env.loadImage i.source).2 }
        { st' with
          images := (st'.images.getOrLoad env.loadImage i.source).2 } :=
    { hStates with images := hLater }
  unfold resolve
  dsimp only
  rw [hLoaded]
  split
  · exact .ok hState List.prefix_rfl Shown.nil
  · split
    · exact .ok hState List.prefix_rfl Shown.nil
    · rename_i image _ _ pattern hPattern
      split
      · exact .ok hState List.prefix_rfl (settled_pattern hPattern _)
      · let f (s : Surface α) : Surface α :=
          (s.pushGroup.setSource pattern).record
            (.paintWithAlpha i.opacity)
        have hInner (s : Surface α) : s.Draws [pattern] (f s) :=
          ((Surface.Draws.pushGroup s).trans
            (.record (.setSource pattern) (List.Subset.refl _) _)).trans
              (.record _ (List.nil_subset _) _)
        have hDraws :
            st.surface.Draws [pattern] (f st.surface).closeGroup :=
          (hInner _).trans (.closeGroup _)
        have hGroup :=
          hState.draw (f := fun s => (f s).closeGroup) hDraws
            (settled_pattern hPattern _)
        simp only [RenderState.draw, hStates.surface] at hGroup ⊢
        exact
          .ok hGroup hDraws.grows
            (Surface.Draws.shown_popGroup (f st.surface))

/- The group of a visual brush is closed and placed alike. -/
theorem VisualBrush.resolve_agrees
    (v : VisualBrush α)
    (given : List (Pattern α)) :
    L.Changes given Option.toList fun st =>
      (some (v.resolve st.surface).1,
        { st with surface := (v.resolve st.surface).2 }) := by
  intro st st' hStates _
  have hDraws :
      st.surface.Draws [] st.surface.closeGroup.restore :=
    (Surface.Draws.closeGroup _).trans (.restore _)
  have hState :=
    hStates.draw (f := fun s => s.closeGroup.restore) hDraws Shown.nil
  have hRestored :
      st.surface.closeGroup.Draws [] st.surface.closeGroup.restore :=
    .restore _
  have hPlaced :
      Shown st.surface.closeGroup.restore.written
        [v.place st.surface.popGroup.1] := by
    have hGroup :=
      (Surface.Draws.shown_popGroup st.surface).later hRestored.grows
    rw [Shown.cons_iff] at hGroup ⊢
    refine ⟨?_, Shown.nil⟩
    unfold place
    dsimp only
    split <;> exact hGroup.1
  simp only [RenderState.draw, hStates.surface] at hState ⊢
  exact .ok hState hDraws.grows hPlaced

/- The pattern of a gradient shows no layer. -/
theorem GradientBrush.settled_pattern
    (g : GradientBrush α)
    (w : List (Operation α)) :
    Shown w g.pattern?.toList := by
  intro p hMem
  rw [Option.mem_toList] at hMem
  unfold pattern? at hMem
  split at hMem
  · rcases Option.map_eq_some_iff.mp hMem with ⟨_, _, rfl⟩
    trivial
  · unfold radialPattern? at hMem
    split at hMem
    · cases hMem
    · rcases Option.map_eq_some_iff.mp hMem with ⟨_, _, rfl⟩
      trivial

/- What the brush of a property makes of its element. -/
theorem endBrush_agrees
    {env : Environment α}
    (hImages : Cache.Serves env.loadImage L.images)
    (pattern? : Option (Pattern α)) :
    L.Changes (pattern?.toList ++ product.patterns) Option.toList
      (endBrush env pattern? product) := by
  unfold endBrush
  cases product with
  | brush b =>
      cases b with
      | gradient g =>
          exact fun st _ hStates _ =>
            .ok hStates List.prefix_rfl (g.settled_pattern _)
      | image i => exact i.resolve_agrees hImages _
  | visual v => exact v.resolve_agrees _
  | _ => exact .same (List.subset_append_left _ _)

omit [Scalar α] in
/- A dictionary stores an entry alike. -/
theorem endEntry_agrees
    (current? : Option ResourceEntry)
    (given : List (Pattern α)) :
    L.Changes given (fun _ => []) (endEntry current? name) := by
  unfold endEntry
  cases current? with
  | none => exact .same (List.nil_subset _)
  | some entry =>
      dsimp only
      cases entry.endElement? name with
      | some entry => exact .same (List.nil_subset _)
      | none =>
          exact
            .rescope (fun scope => (scope.set entry.key entry.markup).2)
              (List.nil_subset _)

/- What any frame makes of the product of a child. -/
theorem Frame.endChild_agrees
    {env : Environment α}
    (hImages : Cache.Serves env.loadImage L.images)
    (frame : Frame α) :
    L.Changes (frame.patterns ++ product.patterns) Frame.patterns
      (frame.endChild env name product) := by
  unfold Frame.endChild
  cases frame with
  | content f =>
      exact
        .map Frame.content (f.endChild_agrees name product) fun _ =>
          List.nil_subset _
  | canvas f =>
      exact
        .map Frame.canvas (f.endChild_agrees name product) fun _ =>
          List.subset_append_left _ _
  | path f =>
      exact
        .map Frame.path (f.endChild_agrees name product) fun _ =>
          List.subset_append_left _ _
  | geometry f =>
      exact
        .map Frame.geometry (f.endChild_agrees name product) fun _ =>
          List.subset_append_left _ _
  | brush pattern? =>
      exact
        .map Frame.brush (endBrush_agrees product hImages pattern?) fun _ =>
          List.subset_append_left _ _
  | glyphs f =>
      exact
        .map Frame.glyphs (f.endChild_agrees name product) fun _ =>
          List.subset_append_left _ _
  | dictionary current? =>
      exact
        .map Frame.dictionary (endEntry_agrees name current? _) fun _ =>
          List.nil_subset _
  | _ => exact .same (List.nil_subset _)

------------------------------------------------------------
-- Ends of owners
------------------------------------------------------------

/- Path data is drawn alike, up to its end or its fault. -/
theorem drawData_agrees
    (given : List (Pattern α))
    (data : String) :
    Action.Agrees L given (fun _ => []) (drawData data)
      (drawData data) := by
  intro st st' hStates _
  have hDraws :
      st.surface.Draws []
        (st.surface.takeAll (PathData.trace data).steps) :=
    .takeAll _ _
  have hState := hStates.draw hDraws Shown.nil
  unfold drawData
  rw [Action.perform_ofEffect, Action.perform_ofEffect]
  unfold Surface.drawData
  dsimp only
  split
  · exact .ok hState hDraws.grows Shown.nil
  · exact .error hState hDraws.grows

/- The clip is narrowed alike. -/
theorem clipToAny_agrees
    (given : List (Pattern α))
    (data? : Option String) :
    Action.Agrees L given (fun _ => []) (clipToAny data?)
      (clipToAny data?) := by
  unfold clipToAny
  cases data? with
  | none => exact .pure (List.nil_subset _)
  | some data =>
      exact
        .bind (.draw Surface.Draws.newPath) fun _ =>
          .bind (drawData_agrees _ data) fun _ =>
            .draw Surface.Draws.clip

/- A path that is given by its data is painted alike. -/
theorem paintData_agrees
    (state : PathState α)
    (data : String) :
    Action.Agrees L state.patterns (fun _ => []) (paintData state data)
      (paintData state data) := by
  unfold paintData
  refine
    .bind (.draw (.record _ (List.nil_subset _))) fun _ =>
      .bind (clipToAny_agrees _ _) fun _ => ?_
  dsimp only
  split
  · exact .fail _
  · exact .draw (Surface.Draws.paintPath state _ true)

/- A path is finished alike. -/
theorem PathFrame.finish_agrees
    (f : PathFrame α) :
    Action.Agrees L f.state.patterns Product.patterns f.finish
      f.finish := by
  have hClosed :
      Action.Agrees L f.state.patterns Product.patterns
        (Action.draw (fun s =>
            (onlyIf f.opacityGroup (paintGroup f.state.opacity)
              s).restore) >>= fun _ => pure Product.none)
        (Action.draw (fun s =>
            (onlyIf f.opacityGroup (paintGroup f.state.opacity)
              s).restore) >>= fun _ => pure Product.none) :=
    .thenPure
      (.draw fun s =>
        (Surface.Draws.onlyIf _ (.paintGroup _) s).trans (.restore _))
      fun _ => List.nil_subset _
  unfold finish
  cases f.state.data? with
  | none => exact hClosed
  | some data =>
      exact .bind (paintData_agrees f.state data) fun _ => hClosed

omit [Scalar α] in
/- A font is loaded alike. -/
theorem GlyphRun.loadFont_agrees
    {env : Environment α}
    (hFonts : Cache.Serves env.loadFont L.fonts)
    (run : GlyphRun α) :
    Action.Agrees L run.patterns (fun _ => []) (run.loadFont env)
      (run.loadFont env) := by
  intro st st' hStates _
  rcases hFonts run.font _ _ hStates.fonts with ⟨hLoaded, hLater⟩
  have hState :
      L.Relates
        { st with
          fonts := (st.fonts.getOrLoad env.loadFont run.font).2 }
        { st' with
          fonts := (st'.fonts.getOrLoad env.loadFont run.font).2 } :=
    { hStates with fonts := hLater }
  unfold loadFont
  rw [Action.perform_ofEffect, Action.perform_ofEffect]
  dsimp only
  rw [hLoaded]
  cases (st.fonts.getOrLoad env.loadFont run.font).1 with
  | ok font => exact .ok hState List.prefix_rfl Shown.nil
  | error fault => exact .error hState List.prefix_rfl

/- A glyph run is finished alike. -/
theorem GlyphsFrame.finish_agrees
    {env : Environment α}
    (hFonts : Cache.Serves env.loadFont L.fonts)
    (f : GlyphsFrame α) :
    Action.Agrees L f.run.patterns Product.patterns (f.finish env)
      (f.finish env) := by
  unfold finish
  refine
    .bind (f.run.loadFont_agrees hFonts) fun font =>
      .bind (clipToAny_agrees _ _) fun _ => ?_
  dsimp only
  split
  · exact .fail _
  · rename_i layout _
    have hShow (s : Surface α) :
        s.Draws f.run.patterns
          (f.run.show f.run.fontMatrix layout s) := by
      have hFill := f.run.fill_subset
      unfold GlyphRun.show
      cases hIs : f.run.fill? with
      | none => exact .record _ (List.nil_subset _) s
      | some fill =>
          rw [hIs] at hFill
          exact
            (Surface.Draws.record (.setSource fill) hFill s).trans
              (.record _ (List.nil_subset _) _)
    refine .thenPure (.draw fun s => ?_) fun _ => List.nil_subset _
    exact
      ((hShow s).trans
        (.paintGroups _ _ f.run.mask_subset _ _)).trans (.restore _)

omit [Scalar α] in
/- Drawing that paints with no pattern is done alike. -/
theorem Likeness.Relates.drawPlain
    {st st' : RenderState α}
    {f : Surface α → Surface α}
    (hStates : L.Relates st st')
    (hDraws : ∀ s : Surface α, s.Draws [] (f s)) :
    L.Relates (st.draw f) (st'.draw f) ∧
      st.surface.written <+: (st.draw f).surface.written :=
  ⟨hStates.draw (hDraws st.surface) Shown.nil,
    (hDraws st.surface).grows⟩

omit [Scalar α] in
/- A canvas is finished alike. -/
theorem CanvasFrame.finish_agrees
    (f : CanvasFrame α) :
    Action.Agrees L f.mask?.toList (fun _ => [])
      (Action.change f.finish) (Action.change f.finish) := by
  intro st st' hStates hGiven
  have hPaint :
      st.surface.Draws f.mask?.toList
        (paintGroups f.maskGroup f.opacityGroup f.mask? f.opacity
          st.surface) :=
    .paintGroups _ _ (List.Subset.refl _) _ _
  have hPainted :=
    (hStates.draw hPaint hGiven).rescope fun scope =>
      scope.popMany f.dictionaries
  rcases hPainted.drawPlain Surface.Draws.restore with
    ⟨hRestored, hGrows⟩
  exact .ok hRestored (hPaint.grows.trans hGrows) Shown.nil

omit [Scalar α] in
/- The page or the content of a visual brush is finished alike. -/
theorem ContentFrame.finish_agrees
    (f : ContentFrame α) :
    Action.Agrees L [] Product.patterns
      (Action.ofEffect fun st => (f.finish st).map .ok id)
      (Action.ofEffect fun st => (f.finish st).map .ok id) := by
  intro st st' hStates _
  have hClosed :=
    hStates.rescope (fun scope => scope.popMany f.dictionaries)
  rw [Action.perform_ofEffect, Action.perform_ofEffect]
  unfold finish
  cases f.visual? with
  | none => exact .ok hClosed List.prefix_rfl Shown.nil
  | some v =>
      exact
        .ok (hClosed.redepth (fun depth => depth - 1)) List.prefix_rfl
          Shown.nil

/- Any frame is finished alike. -/
theorem Frame.finish_agrees
    {env : Environment α}
    (hFonts : Cache.Serves env.loadFont L.fonts)
    (frame : Frame α) :
    Action.Agrees L frame.patterns Product.patterns (frame.finish env)
      (frame.finish env) := by
  cases frame with
  | content f => exact f.finish_agrees
  | canvas f =>
      exact .thenPure f.finish_agrees fun _ => List.nil_subset _
  | path f => exact f.finish_agrees
  | glyphs f => exact f.finish_agrees hFonts
  | geometry f => exact .pure (List.Subset.refl _)
  | brush pattern? => exact .pure (List.Subset.refl _)
  | _ => exact .pure (List.nil_subset _)

------------------------------------------------------------
-- Aborts
------------------------------------------------------------

omit [Scalar α] in
/- Any frame is given up alike. -/
theorem Frame.abort_relates
    {st st' : RenderState α}
    (frame : Frame α)
    (hStates : L.Relates st st') :
    L.Relates (frame.abort st) (frame.abort st') ∧
      st.surface.written <+: (frame.abort st).surface.written := by
  have hDropped
      (inMask inOpacity : Bool)
      (s : Surface α) :
      s.Draws [] (dropGroups inMask inOpacity s).restore :=
    (Surface.Draws.dropGroups inMask inOpacity s).trans (.restore _)
  cases frame with
  | content f =>
      rcases f with ⟨visual?, dictionaries⟩
      have hClosed :=
        hStates.rescope fun scope => scope.popMany dictionaries
      cases visual? with
      | none => exact ⟨hClosed, List.prefix_rfl⟩
      | some v =>
          rcases hClosed.drawPlain (f := fun s => s.closeGroup.restore)
            fun s => (Surface.Draws.closeGroup s).trans (.restore _) with
            ⟨hState, hGrows⟩
          exact ⟨hState.redepth fun depth => depth - 1, hGrows⟩
  | canvas f =>
      rcases hStates.drawPlain
        (Surface.Draws.dropGroups f.maskGroup f.opacityGroup) with
        ⟨hState, hGrows⟩
      have hClosed :=
        hState.rescope fun scope => scope.popMany f.dictionaries
      rcases hClosed.drawPlain Surface.Draws.restore with
        ⟨hRestored, hLater⟩
      exact ⟨hRestored, hGrows.trans hLater⟩
  | path f => exact hStates.drawPlain (hDropped false f.opacityGroup)
  | glyphs f =>
      exact hStates.drawPlain (hDropped f.maskGroup f.opacityGroup)
  | _ => exact ⟨hStates, List.prefix_rfl⟩

end

end FixedPage
