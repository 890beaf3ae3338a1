import FixedPage.Proofs.Mirror.Relation

/-
  This file shows that elements end alike in two states of which
  one is ahead: what a frame makes of the product of a child, how
  it is finished and how it is given up.

  Main declarations:
    * `Surface.Raises.paintPath`
    * `clipToAny_mirrors`
    * `Frame.endChild_mirrors`
    * `Frame.finish_mirrors`
    * `Frame.abort_mirrors`
-/

namespace FixedPage

variable {α : Type} [Scalar α]

------------------------------------------------------------
-- Paths
------------------------------------------------------------

/- The box of a mask does not depend on group numbers. -/
theorem PathState.maskExtents?_raise
    (k : Nat)
    (state : PathState α)
    (path : PathBuilder α) :
    (state.raise k).maskExtents? path = state.maskExtents? path := by
  unfold maskExtents? raise
  cases state.stroke? <;> rfl

namespace Surface.Raises

variable {d : Shift α}

/- The group of a mask is opened on both surfaces. -/
theorem beginMask
    (state : PathState α)
    (path : PathBuilder α) :
    Raises d (FixedPage.beginMask state path)
      (FixedPage.beginMask (state.raise d.groups) path) := by
  unfold FixedPage.beginMask
  rw [PathState.maskExtents?_raise]
  unfold PathState.raise
  cases state.mask? with
  | none => exact keep
  | some mask =>
      cases state.maskExtents? path with
      | none => exact pushGroup
      | some extents =>
          exact ((newPath.comp (takeAll _)).comp clip).comp pushGroup

omit [Scalar α] in
/- The group of a mask is painted on both surfaces. -/
theorem endMask
    (state : PathState α) :
    Raises d (FixedPage.endMask state)
      (FixedPage.endMask (state.raise d.groups)) := by
  unfold FixedPage.endMask PathState.raise
  cases state.mask? with
  | none => exact keep
  | some mask => exact maskGroup (some mask)

omit [Scalar α] in
/- The current path is painted on both surfaces. -/
theorem paintCurrent
    (state : PathState α)
    (filled : Bool) :
    Raises d (FixedPage.paintCurrent state filled)
      (FixedPage.paintCurrent (state.raise d.groups) filled) := by
  have hFill :
      (if filled then (state.raise d.groups).fill? else none) =
        (if filled then state.fill? else none).map
          (Pattern.raise d.groups) := by
    cases filled <;> rfl
  have hStroke :
      (state.raise d.groups).stroke? =
        state.stroke?.map (Pattern.raise d.groups) :=
    rfl
  unfold FixedPage.paintCurrent
  dsimp only
  rw [hFill, hStroke]
  generalize (if filled then state.fill? else none) = fill?
  cases fill? with
  | none =>
      cases state.stroke? with
      | none => exact newPath
      | some stroke => exact (setSource stroke).comp (recordSame rfl)
  | some fill =>
      cases state.stroke? with
      | none => exact (setSource fill).comp (recordSame rfl)
      | some stroke =>
          exact
            (((setSource fill).comp (recordSame rfl)).comp
              (setSource stroke)).comp (recordSame rfl)

/- A path is drawn and painted on both surfaces. -/
theorem paintPath
    (path : PathBuilder α)
    (state : PathState α)
    (filled : Bool) :
    Raises d (FixedPage.paintPath path state filled)
      (FixedPage.paintPath path (state.raise d.groups) filled) :=
  ((((beginMask state path).comp newPath).comp
    (takeAll path.steps)).comp (paintCurrent state filled)).comp
      (endMask state)

end Surface.Raises

section

variable {env : Environment α} {d : Shift α} {same : Bool}

/- Path data is drawn alike up to its end or its fault. -/
theorem drawData_mirrors
    (data : String) :
    Action.Mirrors env d same id (drawData data) (drawData data) := by
  intro st st' hFollows
  have hSteps :=
    hFollows.draw
      (Surface.Raises.takeAll (PathData.trace data).steps)
  unfold drawData Surface.drawData
  rw [Action.perform_ofEffect, Action.perform_ofEffect]
  dsimp only
  cases (PathData.trace (α := α) data).fault? with
  | none => exact ⟨.ok (), hSteps⟩
  | some fault => exact ⟨.error rfl, hSteps⟩

/- A clip is drawn alike. -/
theorem clipToAny_mirrors
    (data? : Option String) :
    Action.Mirrors env d same id (clipToAny data?)
      (clipToAny data?) := by
  cases data? with
  | none => exact .pure rfl
  | some data =>
      exact
        .bind (.draw .newPath) fun _ =>
          (drawData_mirrors data).bind fun _ => .draw .clip

/- A path given by its data is painted alike. -/
theorem paintData_mirrors
    (state : PathState α)
    (data : String) :
    Action.Mirrors env d same id (paintData state data)
      (paintData (state.raise d.groups) data) := by
  unfold paintData
  refine .bind (.draw (.recordSame rfl)) fun _ =>
    .bind (clipToAny_mirrors _) fun _ => ?_
  dsimp only
  split
  · exact .fail rfl
  · exact .draw (.paintPath _ state true)

------------------------------------------------------------
-- Brushes
------------------------------------------------------------

variable {st st' : RenderState α}

/- The pattern of a gradient shows no group. -/
theorem GradientBrush.raise_of_pattern?
    {g : GradientBrush α}
    {p : Pattern α}
    (hPattern : g.pattern? = some p)
    (k : Nat) :
    p.raise k = p := by
  unfold pattern? linearPattern? radialPattern? at hPattern
  split at hPattern
  · rw [Option.map_eq_some_iff] at hPattern
    rcases hPattern with ⟨matrix, _, rfl⟩
    rfl
  · split at hPattern
    · cases hPattern
    · rw [Option.map_eq_some_iff] at hPattern
      rcases hPattern with ⟨matrix, _, rfl⟩
      rfl

/- The pattern of an image shows no group. -/
theorem ImageBrush.raise_of_pattern?
    {i : ImageBrush α}
    {image : Image α}
    {p : Pattern α}
    (hPattern : i.pattern? image = some p)
    (k : Nat) :
    p.raise k = p := by
  unfold pattern? at hPattern
  rw [Option.map_eq_some_iff] at hPattern
  rcases hPattern with ⟨matrix, _, rfl⟩
  rfl

omit [Scalar α] in
/- A pattern is drawn alike into a group of its own. -/
theorem groupWithOpacity_raise
    (pattern : Pattern α)
    (opacity : α)
    (s : Surface α) :
    groupWithOpacity (pattern.raise d.groups) opacity (s.raise d) =
      ((groupWithOpacity pattern opacity s).1.raise d.groups,
        (groupWithOpacity pattern opacity s).2.raise d) := by
  have hInner :=
    ((Surface.Raises.pushGroup.comp
      (Surface.Raises.setSource (d := d) pattern)).comp
        (.record (.paintWithAlpha opacity))) s
  exact
    (congrArg Surface.popGroup hInner).trans
      (Surface.popGroup_raise d _)

/- The pattern of an image is the same but for its group. -/
theorem ImageBrush.resolve_mirrors
    (i : ImageBrush α)
    (hFollows : st.Follows env d same st') :
    (i.resolve env st').1 =
        (i.resolve env st).1.map (Pattern.raise d.groups) ∧
      (i.resolve env st).2.Follows env d same
        (i.resolve env st').2 := by
  rcases Cache.Alike.serves same _ i.source _ _ hFollows.images with
    ⟨hLoaded, hImages⟩
  have hState :
      RenderState.Follows env d same
        { st with
          images := (st.images.getOrLoad env.loadImage i.source).2 }
        { st' with
          images := (st'.images.getOrLoad env.loadImage i.source).2 } :=
    ⟨hFollows.surface, hFollows.scope, hFollows.visualDepth,
      hFollows.fonts, hImages, hFollows.profiles⟩
  unfold resolve
  dsimp only
  rw [hLoaded]
  cases (st.images.getOrLoad env.loadImage i.source).1 with
  | error fault => exact ⟨rfl, hState⟩
  | ok image =>
      dsimp only
      cases hPattern : i.pattern? image with
      | none => exact ⟨rfl, hState⟩
      | some pattern =>
          have hSame := raise_of_pattern? hPattern d.groups
          dsimp only
          by_cases hOpaque : (i.opacity == 1) = true
          · rw [if_pos hOpaque, if_pos hOpaque]
            exact ⟨congrArg some hSame.symm, hState⟩
          · have hGroup :=
              groupWithOpacity_raise (d := d) pattern i.opacity
                st.surface
            rw [hSame, ← hFollows.surface] at hGroup
            rw [if_neg hOpaque, if_neg hOpaque, hGroup]
            exact ⟨rfl, hState.resurface rfl⟩

/- Where the group of a visual brush lies and how it goes on. -/
theorem VisualBrush.place_raise
    (v : VisualBrush α)
    (k : Nat)
    (group : Pattern α) :
    v.place (group.raise k) = (v.place group).raise k := by
  unfold place
  dsimp only
  split <;> rfl

/- What the brush of a property makes of its element, alike. -/
theorem endBrush_mirrors
    (pattern? : Option (Pattern α))
    (product : Product α)
    (hFollows : st.Follows env d same st') :
    (endBrush env (pattern?.map (Pattern.raise d.groups))
          (product.raise d.groups) st').1 =
        (endBrush env pattern? product st).1.map
          (Pattern.raise d.groups) ∧
      (endBrush env pattern? product st).2.Follows env d same
        (endBrush env (pattern?.map (Pattern.raise d.groups))
          (product.raise d.groups) st').2 := by
  cases product with
  | brush b =>
      cases b with
      | image i => exact i.resolve_mirrors hFollows
      | gradient g =>
          refine ⟨?_, hFollows⟩
          change g.pattern? = g.pattern?.map (Pattern.raise d.groups)
          cases hPattern : g.pattern? with
          | none => rfl
          | some p =>
              have hSame :=
                GradientBrush.raise_of_pattern? hPattern d.groups
              exact congrArg some hSame.symm
  | visual v =>
      have hPop :
          v.resolve st'.surface =
            ((v.resolve st.surface).1.raise d.groups,
              (v.resolve st.surface).2.raise d) := by
        unfold VisualBrush.resolve
        rw [hFollows.surface, Surface.popGroup_raise]
        dsimp only
        rw [VisualBrush.place_raise, Surface.Raises.restore]
      unfold endBrush
      dsimp only [Product.raise]
      rw [hPop]
      exact ⟨rfl, hFollows.resurface rfl⟩
  | none => exact ⟨rfl, hFollows⟩
  | pattern _ => exact ⟨rfl, hFollows⟩
  | matrix _ => exact ⟨rfl, hFollows⟩
  | path _ => exact ⟨rfl, hFollows⟩

------------------------------------------------------------
-- Children
------------------------------------------------------------

omit [Scalar α] in
/- The first mask is taken, whatever the numbers of groups. -/
theorem takeMask_raise
    (k : Nat)
    (known? : Option (Pattern α))
    (product : Product α) :
    takeMask (known?.map (Pattern.raise k)) (product.raise k) =
      (takeMask known? product).map (Pattern.raise k) := by
  cases known? with
  | some mask => rfl
  | none =>
      cases product with
      | pattern pattern? => cases pattern? <;> rfl
      | _ => rfl

omit [Scalar α] in
/- What a page or a visual brush makes of a child, alike. -/
theorem ContentFrame.endChild_mirrors
    (f : ContentFrame α)
    (name : String)
    (product : Product α)
    (hFollows : st.Follows env d same st') :
    (f.endChild name (product.raise d.groups) st').1 =
        (f.endChild name product st).1 ∧
      (f.endChild name product st).2.Follows env d same
        (f.endChild name (product.raise d.groups) st').2 := by
  fun_cases endChild f name product st
  · exact ⟨rfl, hFollows.popDictionaries f.dictionaries⟩
  · exact ⟨rfl, hFollows⟩
  · rename_i hPage hMatrix
    cases product <;>
      simp_all [endChild, Product.raise]

/- What a canvas makes of a child, alike. -/
theorem CanvasFrame.endChild_mirrors
    (f : CanvasFrame α)
    (name : String)
    (product : Product α)
    (hFollows : st.Follows env d same st') :
    ((f.raise d.groups).endChild name (product.raise d.groups) st').1 =
        (f.endChild name product st).1.raise d.groups ∧
      (f.endChild name product st).2.Follows env d same
        ((f.raise d.groups).endChild name (product.raise d.groups)
          st').2 := by
  have hMask := takeMask_raise d.groups f.mask? product
  fun_cases endChild f name product st
  · exact ⟨rfl, hFollows.draw (.transform _)⟩
  · rename_i mask hTaken
    rw [hTaken] at hMask
    simp only [endChild, raise, hMask, Option.map_some]
    exact ⟨trivial, hFollows.draw .pushGroup⟩
  · rename_i hTaken
    rw [hTaken] at hMask
    simp only [endChild, raise, hMask, Option.map_none]
    exact ⟨trivial, hFollows⟩
  · rename_i hMatrix hOther
    cases product <;> simp_all [endChild, Product.raise]

/- What a path makes of a child, alike. -/
theorem PathFrame.endChild_mirrors
    (f : PathFrame α)
    (name : String)
    (product : Product α)
    (hFollows : st.Follows env d same st') :
    ((f.raise d.groups).endChild name (product.raise d.groups) st').1 =
        (f.endChild name product st).1.raise d.groups ∧
      (f.endChild name product st).2.Follows env d same
        ((f.raise d.groups).endChild name (product.raise d.groups)
          st').2 := by
  fun_cases endChild f name product st
  · exact ⟨rfl, hFollows⟩
  · exact ⟨rfl, hFollows⟩
  · rename_i pattern? hMask
    simp [endChild, raise, Product.raise, PathState.raise, hMask,
      hFollows]
  · rename_i pattern? mask hMask
    simp [endChild, raise, Product.raise, PathState.raise, hMask,
      hFollows]
  · exact ⟨rfl, hFollows.draw (.transform _)⟩
  · exact ⟨rfl, hFollows⟩
  · exact ⟨rfl, hFollows⟩
  · cases product <;> simp_all [endChild, Product.raise]

/- A figure is painted alike. -/
theorem GeometryFrame.endFigure_raise
    (f : GeometryFrame α)
    (s : Surface α) :
    (f.raise d.groups).endFigure (s.raise d) =
      ((f.endFigure s).1.raise d.groups, (f.endFigure s).2.raise d) := by
  have hPaint :=
    Surface.Raises.paintPath (d := d)
      (if f.state.isClosed then f.figure.push .close else f.figure)
      f.state f.state.isFilled s
  exact congrArg (Prod.mk _) hPaint

/- What a geometry makes of a child, alike. -/
theorem GeometryFrame.endChild_mirrors
    (f : GeometryFrame α)
    (name : String)
    (product : Product α)
    (hFollows : st.Follows env d same st') :
    ((f.raise d.groups).endChild name (product.raise d.groups) st').1 =
        (f.endChild name product st).1.raise d.groups ∧
      (f.endChild name product st).2.Follows env d same
        ((f.raise d.groups).endChild name (product.raise d.groups)
          st').2 := by
  fun_cases endChild f name product st
  · exact ⟨rfl, hFollows.draw (.transform _)⟩
  · rename_i next surface hFigure
    have hRaised := f.endFigure_raise (d := d) st.surface
    rw [hFigure] at hRaised
    simp only [endChild, hFollows.surface, hRaised]
    exact ⟨trivial, hFollows.resurface rfl⟩
  · cases product <;> simp_all [endChild, Product.raise]

/- What a glyph run makes of a child, alike. -/
theorem GlyphsFrame.endChild_mirrors
    (f : GlyphsFrame α)
    (name : String)
    (product : Product α)
    (hFollows : st.Follows env d same st') :
    ((f.raise d.groups).endChild name (product.raise d.groups) st').1 =
        (f.endChild name product st).1.raise d.groups ∧
      (f.endChild name product st).2.Follows env d same
        ((f.raise d.groups).endChild name (product.raise d.groups)
          st').2 := by
  have hMask := takeMask_raise d.groups f.run.mask? product
  fun_cases endChild f name product st
  · exact ⟨rfl, hFollows.draw (.transform _)⟩
  · exact ⟨rfl, hFollows⟩
  · rename_i mask hTaken
    rw [hTaken] at hMask
    simp only [endChild, raise, GlyphRun.raise, hMask,
      Option.map_some]
    exact ⟨trivial, hFollows.draw .pushGroup⟩
  · rename_i hTaken
    rw [hTaken] at hMask
    simp only [endChild, raise, GlyphRun.raise, hMask,
      Option.map_none]
    exact ⟨trivial, hFollows⟩
  · cases product <;> simp_all [endChild, Product.raise]

omit [Scalar α] in
/- An entry is stored alike. -/
theorem endEntry_mirrors
    (current? : Option ResourceEntry)
    (name : String)
    (hFollows : st.Follows env d same st') :
    (endEntry current? name st').1 = (endEntry current? name st).1 ∧
      (endEntry current? name st).2.Follows env d same
        (endEntry current? name st').2 := by
  unfold endEntry
  split
  · exact ⟨rfl, hFollows⟩
  · split
    · exact ⟨rfl, hFollows⟩
    · exact ⟨rfl, hFollows.rescope (by rw [hFollows.scope])⟩

/- What any frame makes of the product of a child, alike. -/
theorem Frame.endChild_mirrors
    (frame : Frame α)
    (name : String)
    (product : Product α)
    (hFollows : st.Follows env d same st') :
    ((frame.raise d.groups).endChild env name
          (product.raise d.groups) st').1 =
        (frame.endChild env name product st).1.raise d.groups ∧
      (frame.endChild env name product st).2.Follows env d same
        ((frame.raise d.groups).endChild env name
          (product.raise d.groups) st').2 := by
  cases frame with
  | content f =>
      have hEnd := f.endChild_mirrors name product hFollows
      exact ⟨congrArg content hEnd.1, hEnd.2⟩
  | canvas f =>
      have hEnd := f.endChild_mirrors name product hFollows
      exact ⟨congrArg canvas hEnd.1, hEnd.2⟩
  | path f =>
      have hEnd := f.endChild_mirrors name product hFollows
      exact ⟨congrArg path hEnd.1, hEnd.2⟩
  | geometry f =>
      have hEnd := f.endChild_mirrors name product hFollows
      exact ⟨congrArg geometry hEnd.1, hEnd.2⟩
  | brush pattern? =>
      have hEnd := endBrush_mirrors pattern? product hFollows
      exact ⟨congrArg brush hEnd.1, hEnd.2⟩
  | gradient g =>
      cases product <;> exact ⟨rfl, hFollows⟩
  | image i =>
      refine ⟨congrArg image ?_, hFollows⟩
      fun_cases ImageBrush.endChild i name product
      · rfl
      · cases product <;>
          simp_all [ImageBrush.endChild, Product.raise]
  | glyphs f =>
      have hEnd := f.endChild_mirrors name product hFollows
      exact ⟨congrArg glyphs hEnd.1, hEnd.2⟩
  | matrix m => exact ⟨rfl, hFollows⟩
  | resources remote => exact ⟨rfl, hFollows⟩
  | dictionary current? =>
      have hEnd := endEntry_mirrors current? name hFollows
      exact ⟨congrArg dictionary hEnd.1, hEnd.2⟩

------------------------------------------------------------
-- Ends of owners
------------------------------------------------------------

/- A path is finished alike. -/
theorem PathFrame.finish_mirrors
    (f : PathFrame α) :
    Action.Mirrors env d same (Product.raise d.groups) f.finish
      (f.raise d.groups).finish := by
  have hData : (f.raise d.groups).state.data? = f.state.data? := rfl
  have hDraw :
      Surface.Raises d
        (fun s =>
          (onlyIf f.opacityGroup (paintGroup f.state.opacity)
            s).restore)
        (fun s =>
          (onlyIf f.opacityGroup (paintGroup f.state.opacity)
            s).restore) :=
    (Surface.Raises.onlyIf _ (.paintGroup _)).comp .restore
  unfold finish
  rw [hData]
  cases f.state.data? with
  | none => exact .thenPure (.draw hDraw) fun _ => rfl
  | some data =>
      exact
        (paintData_mirrors f.state data).bind fun _ =>
          .thenPure (.draw hDraw) fun _ => rfl

omit [Scalar α] in
/- A font is loaded alike. -/
theorem GlyphRun.loadFont_mirrors
    (run : GlyphRun α) :
    Action.Mirrors env d same id (run.loadFont env)
      (run.loadFont env) := by
  intro st st' hFollows
  rcases Cache.Alike.serves same _ run.font _ _ hFollows.fonts with
    ⟨hLoaded, hFonts⟩
  unfold loadFont
  rw [Action.perform_ofEffect, Action.perform_ofEffect]
  dsimp only
  rw [hLoaded]
  exact
    ⟨.refl _, hFollows.surface, hFollows.scope,
      hFollows.visualDepth, hFonts, hFollows.images,
      hFollows.profiles⟩

omit [Scalar α] in
/- Glyphs are drawn on both surfaces. -/
theorem GlyphRun.show_raises
    (run : GlyphRun α)
    (matrix : Matrix α)
    (layout : GlyphLayout α) :
    Surface.Raises d (run.show matrix layout)
      ((run.raise d.groups).show matrix layout) := by
  unfold GlyphRun.show raise
  cases run.fill? with
  | none => exact .recordSame rfl
  | some fill =>
      exact (Surface.Raises.setSource fill).comp (.recordSame rfl)

/- A glyph run is finished alike. -/
theorem GlyphsFrame.finish_mirrors
    (f : GlyphsFrame α) :
    Action.Mirrors env d same (Product.raise d.groups) (f.finish env)
      ((f.raise d.groups).finish env) := by
  unfold finish
  refine f.run.loadFont_mirrors.bind fun font =>
    .bind (clipToAny_mirrors f.run.clip?) fun _ => ?_
  have hLayout :
      layoutGlyphs ⟨font, (f.run.raise d.groups).fontMatrix⟩
          (f.run.raise d.groups).placement
          (f.run.raise d.groups).shownText
          (f.run.raise d.groups).indices? =
        layoutGlyphs ⟨font, f.run.fontMatrix⟩ f.run.placement
          f.run.shownText f.run.indices? := rfl
  have hRun : (f.raise d.groups).run = f.run.raise d.groups := rfl
  dsimp only [id]
  rw [hRun, hLayout]
  cases
    layoutGlyphs ⟨font, f.run.fontMatrix⟩ f.run.placement
      f.run.shownText f.run.indices? with
  | error fault => exact .fail rfl
  | ok layout =>
      exact
        .thenPure
          (.draw
            (((f.run.show_raises _ layout).comp
              (.paintGroups _ _ f.run.mask? _)).comp .restore))
          fun _ => rfl

/- Any frame is finished alike. -/
theorem Frame.finish_mirrors
    (frame : Frame α) :
    Action.Mirrors env d same (Product.raise d.groups)
      (frame.finish env) ((frame.raise d.groups).finish env) := by
  cases frame with
  | content f =>
      rcases f with ⟨visual?, dictionaries⟩
      intro st st' hFollows
      have hState := hFollows.popDictionaries dictionaries
      cases visual? with
      | none => exact ⟨.ok Product.none, hState⟩
      | some v =>
          exact
            ⟨.ok (Product.visual v),
              hState.redepth (by rw [hState.visualDepth])⟩
  | canvas f =>
      intro st st' hFollows
      exact
        ⟨.ok Product.none,
          ((hFollows.draw (.paintGroups _ _ f.mask? _)).popDictionaries
            f.dictionaries).draw .restore⟩
  | path f => exact f.finish_mirrors
  | geometry f => exact .pure rfl
  | brush pattern? => exact .pure rfl
  | gradient g => exact .pure rfl
  | image i => exact .pure rfl
  | glyphs f => exact f.finish_mirrors
  | matrix m => exact .pure rfl
  | resources remote => exact .pure rfl
  | dictionary current? => exact .pure rfl

omit [Scalar α] in
/- Any frame is given up alike. -/
theorem Frame.abort_mirrors
    (frame : Frame α)
    (hFollows : st.Follows env d same st') :
    (frame.abort st).Follows env d same
      ((frame.raise d.groups).abort st') := by
  cases frame with
  | content f =>
      rcases f with ⟨visual?, dictionaries⟩
      have hState := hFollows.popDictionaries dictionaries
      cases visual? with
      | none => exact hState
      | some v =>
          have hDrawn :=
            hState.draw
              (Surface.Raises.closeGroup.comp Surface.Raises.restore)
          exact hDrawn.redepth (by rw [hState.visualDepth])
  | canvas f =>
      exact
        ((hFollows.draw (.dropGroups _ _)).popDictionaries
          f.dictionaries).draw .restore
  | path f =>
      exact hFollows.draw ((Surface.Raises.dropGroups _ _).comp .restore)
  | glyphs f =>
      exact hFollows.draw ((Surface.Raises.dropGroups _ _).comp .restore)
  | _ => exact hFollows

end

end FixedPage
