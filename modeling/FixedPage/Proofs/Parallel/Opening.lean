import FixedPage.Proofs.Mirror.Relation
import FixedPage.Proofs.Parallel.Running
import FixedPage.Proofs.Render.Geometries
import FixedPage.Proofs.Scalar.Exact

/-
  This file shows that elements start alike in two runs side by
  side. The brushes of a page are looked up alike, by induction
  on how many of them may be under way at once.

  So a page may be rendered twice, the second time with options
  that put up with more: unknown content is passed over if it was
  before, and visual brushes may be nested as deep or deeper. A
  page that is rendered without a failure is drawn in the same way
  both times.

  Main declarations:
    * `startBrush_agrees`
    * `startContent_agrees`
    * `startElement_parallel`
    * `pageBrush_parallel`
    * `renderItems_agrees`
    * `Likeness.lenient`
    * `Page.render_lenient`
-/

namespace FixedPage

open Markup

variable {α : Type} [Scalar α]
variable {env : Environment α} {options : Options} {L : Likeness α}

------------------------------------------------------------
-- Brushes
------------------------------------------------------------

section

variable (hAdmits : L.Admits env options)
variable (given : List (Pattern α)) (e : Element)

include hAdmits

/- A brush of one color is read alike. -/
theorem SolidBrush.read_agrees :
    Action.Agrees L given (fun _ => []) (SolidBrush.read env e)
      (SolidBrush.read (env.under options) e) := by
  have hTake
      (b : SolidBrush α)
      (a : Attribute) :
      Action.Agrees L [] (fun _ => []) (takeAttribute env e b a)
        (takeAttribute (env.under options) e b a) := by
    unfold takeAttribute
    split
    · exact
        .thenPure (colorValue_agrees _ hAdmits.profiles e _ _) fun _ =>
          List.nil_subset _
    · exact .readPure _ fun _ => List.nil_subset _
    · split
      · exact .pure (List.nil_subset _)
      · exact .fail _
  exact
    .bind (.foldlM hTake (List.nil_subset _) _) fun _ =>
      .readPure _ fun _ => List.nil_subset _

/- The common attributes of brushes are read alike. -/
theorem BrushStyle.read_agrees
    (grammar : BrushGrammar)
    (extend : Extend) :
    Action.Agrees L given (fun _ => [])
      (BrushStyle.read env grammar extend e)
      (BrushStyle.read (env.under options) grammar extend e) := by
  have hTake
      (s : BrushStyle α)
      (a : Attribute) :
      Action.Agrees L [] (fun _ => []) (takeAttribute env grammar e s a)
        (takeAttribute (env.under options) grammar e s a) := by
    unfold takeAttribute
    split
    · exact .pure (List.nil_subset _)
    · split
      · exact .pure (List.nil_subset _)
      · split
        · exact .readPure _ fun _ => List.nil_subset _
        · split
          · exact
              .thenPure (transformValue_agrees _ hAdmits e _ _)
                fun _ => List.nil_subset _
          · exact .fail _
  exact .foldlM hTake (List.nil_subset _) _

/- A gradient is read alike. -/
theorem GradientBrush.read_agrees
    (course : List String)
    (shapeOf : Element → Except Error (GradientShape α)) :
    Action.Agrees L given (fun _ => [])
      (GradientBrush.read env course shapeOf e)
      (GradientBrush.read (env.under options) course shapeOf e) :=
  .bind (BrushStyle.read_agrees hAdmits given e _ _) fun _ =>
    .readPure _ fun _ => List.nil_subset _

/- A stop of a gradient is read alike. -/
theorem GradientBrush.readStop_agrees :
    Action.Agrees L given (fun _ => []) (readStop env e)
      (readStop (env.under options) e) := by
  have hStop :
      Action.Agrees L given (fun _ => [])
        (do
          let color ← Action.ofExcept (e.required "Color")
          let offset ←
            Action.ofExcept (e.readRequired "Offset" Value.number?)
          let color? ← colorValue env e "Color" color
          pure (color?.map fun color => GradientStop.mk offset color))
        (do
          let color ← Action.ofExcept (e.required "Color")
          let offset ←
            Action.ofExcept (e.readRequired "Offset" Value.number?)
          let color? ← colorValue (env.under options) e "Color" color
          pure (color?.map fun color => GradientStop.mk offset color)) :=
    .bind (.ofExcept _) fun _ =>
      .bind (.ofExcept _) fun _ =>
        .thenPure (colorValue_agrees _ hAdmits.profiles e _ _) fun _ =>
          List.nil_subset _
  unfold readStop
  dsimp only
  split
  · exact .andThen (.fail _) fun _ => hStop
  · exact hStop

/- An element inside a gradient starts alike. -/
theorem GradientBrush.startChild_agrees
    (g : GradientBrush α) :
    Action.Agrees L given (openedPatterns fun _ => [])
      (g.startChild env e) (g.startChild (env.under options) e) := by
  unfold startChild
  split
  · exact .pure (List.nil_subset _)
  · exact .pure (List.nil_subset _)
  · exact .pure (List.nil_subset _)
  · exact .pure (List.nil_subset _)
  · exact
      .thenPure (readStop_agrees hAdmits given e) fun _ =>
        List.nil_subset _
  · exact .fail _

/- An image brush is read alike. -/
theorem ImageBrush.read_agrees :
    Action.Agrees L given (fun _ => []) (ImageBrush.read env e)
      (ImageBrush.read (env.under options) e) :=
  .bind (BrushStyle.read_agrees hAdmits given e _ _) fun _ =>
    .ofExcept _

/- The layout of a visual brush is read alike. -/
theorem VisualBrush.read_agrees :
    Action.Agrees L given (fun _ => []) (VisualBrush.read env e)
      (VisualBrush.read (env.under options) e) :=
  .bind (BrushStyle.read_agrees hAdmits given e _ _) fun _ =>
    .ofExcept _

omit [Scalar α] in
/- Where a visual brush may begin, it may begin in both runs. -/
theorem VisualBrush.checkDepth_agrees :
    Action.Agrees L given (fun _ => [])
      (checkDepth env.options.maxVisualDepth)
      (checkDepth options.maxVisualDepth) := by
  intro st st' hStates _
  unfold checkDepth
  rw [Action.perform_ofEffect, Action.perform_ofEffect,
    hStates.visualDepth]
  by_cases hDepth : st.visualDepth < env.options.maxVisualDepth
  · rw [if_pos hDepth]
    have hDepth' : st.visualDepth < options.maxVisualDepth := by
      rcases hAdmits.options with rfl | ⟨_, hMore, _⟩
      · exact hDepth
      · exact Nat.lt_of_lt_of_le hDepth hMore
    rw [if_pos hDepth']
    exact .ok hStates List.prefix_rfl Shown.nil
  · rw [if_neg hDepth]
    rcases hAdmits.options with rfl | ⟨hLax, _, _⟩
    · rw [if_neg hDepth]
      exact .error hStates List.prefix_rfl
    · exact .lax hLax

/- A visual brush starts alike. -/
theorem VisualBrush.begin_agrees :
    Action.Agrees L given (fun _ => []) (VisualBrush.begin env e)
      (VisualBrush.begin (env.under options) e) := by
  unfold begin
  refine .bind (checkDepth_agrees hAdmits given) fun _ =>
    .bind (read_agrees hAdmits _ e) fun v =>
      .andThen ?_ fun _ => .pure (List.nil_subset _)
  intro st st' hStates _
  have hOpen (s : Surface α) : s.Draws [] (v.openGroup s) := by
    have hGroup :
        s.Draws []
          (s.save.newPath.rectangle ⟨0, 0, v.width, v.height⟩
            ).clip.pushGroup :=
      ((((Surface.Draws.save s).trans (.newPath _)).trans
        (.takeAll _ _)).trans (.clip _)).trans (.pushGroup _)
    unfold openGroup
    refine hGroup.trans ?_
    unfold fitViewbox
    split
    · exact .refl _
    · exact (Surface.Draws.transform _ _).trans (.transform _ _)
  rcases hStates.drawPlain hOpen with ⟨hState, hGrows⟩
  exact .ok (hState.redepth fun depth => depth + 1) hGrows Shown.nil

/- The element of a brush starts alike. -/
theorem startBrush_agrees
    (pattern? : Option (Pattern α)) :
    Action.Agrees L pattern?.toList (openedPatterns Option.toList)
      (startBrush env pattern? e)
      (startBrush (env.under options) pattern? e) := by
  have hOpened
      {frame : Frame α}
      (hFrame : frame.patterns = []) :
      openedPatterns Option.toList (pattern?, some frame)
        ⊆ [] ++ pattern?.toList := by
    rw [openedPatterns_some, hFrame, List.append_nil]
    exact List.subset_append_right _ _
  unfold startBrush
  split
  · refine .bind (SolidBrush.read_agrees hAdmits _ e) fun b =>
      .pureShown fun w => ?_
    have hSolid : Shown w b.pattern?.toList := by
      unfold SolidBrush.pattern?
      cases b.color? with
      | none => exact Shown.nil
      | some color => exact Shown.cons_iff.mpr ⟨trivial, Shown.nil⟩
    rw [openedPatterns_none]
    exact hSolid
  · exact
      .thenPure (GradientBrush.read_agrees hAdmits _ e _ _) fun _ =>
        hOpened rfl
  · exact
      .thenPure (GradientBrush.read_agrees hAdmits _ e _ _) fun _ =>
        hOpened rfl
  · exact
      .thenPure (ImageBrush.read_agrees hAdmits _ e) fun _ =>
        hOpened rfl
  · exact
      .thenPure (VisualBrush.begin_agrees hAdmits _ e) fun _ =>
        hOpened rfl
  · exact .fail _

end

------------------------------------------------------------
-- Paths
------------------------------------------------------------

section

variable {lookup lookup' : BrushLookup α}
variable (hAdmits : L.Admits env options)
variable (hLookup : LooksUpParallel L lookup lookup')
variable (e : Element)

include hAdmits hLookup in
/- An attribute of a path is taken alike. -/
theorem PathState.takeAttribute_agrees
    (state : PathState α)
    (a : Attribute) :
    Action.Agrees L state.patterns PathState.patterns
      (takeAttribute env lookup e state a)
      (takeAttribute (env.under options) lookup' e state a) := by
  have hBrush :
      Action.Agrees L state.patterns Option.toList
        (brushValue env lookup e a.name a.value)
        (brushValue env lookup' e a.name a.value) :=
    brushValue_agrees _ hAdmits.profiles hLookup e _ _
  have hNew (p? : Option (Pattern α)) :
      p?.toList ⊆ p?.toList ++ state.patterns :=
    List.subset_append_left _ _
  have hOld
      {qs : List (Pattern α)}
      (hKept : qs ⊆ state.patterns)
      (p? : Option (Pattern α)) :
      qs ⊆ p?.toList ++ state.patterns :=
    List.Subset.trans hKept (List.subset_append_right _ _)
  have hFill := state.fill_subset
  have hStroke := state.stroke_subset
  have hMask := state.mask_subset
  unfold takeAttribute
  split
  · exact
      .thenPure (geometryValue_agrees _ _) fun _ => List.Subset.refl _
  · exact
      .thenPure (geometryValue_agrees _ _) fun _ => List.Subset.refl _
  · exact
      transformWith_agrees _ hAdmits e _ _ (List.Subset.refl _)
  · exact
      .thenPure hBrush fun p? =>
        patterns_subset (hNew p?) (hOld hStroke p?)
          (hOld hMask p?)
  · exact
      .thenPure hBrush fun p? =>
        patterns_subset (hOld hFill p?) (hNew p?)
          (hOld hMask p?)
  · exact
      .thenPure hBrush fun p? =>
        patterns_subset (hOld hFill p?)
          (hOld hStroke p?) (hNew p?)
  · exact .readPure _ fun _ => List.Subset.refl _
  · split
    · exact .pure (List.Subset.refl _)
    · exact .readPure _ fun _ => List.Subset.refl _

include hAdmits hLookup in
/- A path starts alike. -/
theorem PathFrame.begin_agrees :
    Action.Agrees L [] (fun f => f.state.patterns)
      (PathFrame.begin env lookup e)
      (PathFrame.begin (env.under options) lookup' e) := by
  unfold begin
  refine .bind (.draw .save) fun _ =>
    .bind
      (.onError
        (.foldlM (PathState.takeAttribute_agrees hAdmits hLookup e)
          (List.nil_subset _) _))
      fun state => ?_
  exact
    .thenPure (.draw (.onlyIf _ .pushGroup)) fun _ =>
      List.subset_append_left _ _

omit [Scalar α] in
/- The geometry of a clip is not painted with. -/
theorem PathFrame.takeClip_patterns
    (f : PathFrame α) :
    (f.takeClip e).state.patterns = f.state.patterns := by
  unfold takeClip
  split <;> rfl

include hAdmits in
/- The geometry of a path starts alike. -/
theorem PathFrame.startGeometry_agrees
    (f : PathFrame α) :
    Action.Agrees L f.state.patterns
      (openedPatterns fun f' : PathFrame α => f'.state.patterns)
      (f.startGeometry env e)
      (f.startGeometry (env.under options) e) := by
  have hTake
      (f : PathFrame α)
      (a : Attribute) :
      Action.Agrees L f.state.patterns (fun f' => f'.state.patterns)
        (takeGeometryAttribute env e f a)
        (takeGeometryAttribute (env.under options) e f a) := by
    unfold takeGeometryAttribute
    split
    · exact .pure (List.Subset.refl _)
    · exact
        transformWith_agrees _ hAdmits e _ _ (List.Subset.refl _)
    · exact .pure (List.Subset.refl _)
  unfold startGeometry
  refine .bind (.foldlM hTake (List.Subset.refl _) _) fun f' => ?_
  split
  · refine .pure ?_
    rw [openedPatterns_none]
    exact List.subset_append_left _ _
  · refine .bind (.draw (.record _ (List.nil_subset _))) fun _ =>
      .thenPure (clipToAny_agrees _ f'.state.clip?) fun _ => ?_
    rw [openedPatterns_some]
    have hFigures :
        f'.state.patterns ⊆
          [] ++ ([] ++ (f'.state.patterns ++ f.state.patterns)) :=
      List.subset_append_left _ _
    exact hFigures

include hAdmits in
/- An element inside a path starts alike. -/
theorem PathFrame.startChild_agrees
    (f : PathFrame α) :
    Action.Agrees L f.state.patterns
      (openedPatterns fun f' : PathFrame α => f'.state.patterns)
      (f.startChild env e) (f.startChild (env.under options) e) := by
  have hAlone
      {f' : PathFrame α}
      (hSame : f'.state.patterns = f.state.patterns) :
      openedPatterns (fun f : PathFrame α => f.state.patterns)
        (f', none) ⊆ f.state.patterns := by
    rw [openedPatterns_none, hSame]
    exact List.Subset.refl _
  have hBeside
      {child : Frame α}
      (hChild : child.patterns = []) :
      openedPatterns (fun f : PathFrame α => f.state.patterns)
        (f, some child) ⊆ f.state.patterns := by
    rw [openedPatterns_some, hChild, List.append_nil]
    exact List.Subset.refl _
  unfold startChild
  split
  · exact .pure (hBeside rfl)
  · exact .pure (hBeside rfl)
  · exact .pure (hBeside rfl)
  · exact .pure (hBeside rfl)
  · exact .pure (hAlone rfl)
  · split
    · exact .pure (hAlone (takeClip_patterns e f))
    · exact startGeometry_agrees hAdmits e f
  · exact .pure (hAlone rfl)

/- An element inside a geometry starts alike. -/
theorem GeometryFrame.startChild_agrees
    (f : GeometryFrame α) :
    Action.Agrees L f.state.patterns
      (openedPatterns fun f' : GeometryFrame α => f'.state.patterns)
      (Action.ofExcept (f.startChild e))
      (Action.ofExcept (f.startChild e)) := by
  refine .ofGiven ?_
  rintro ⟨f', child?⟩ hOk
  rcases flagged_of_startChild hOk with
    ⟨⟨isClosed, isFilled, hState⟩, rfl | rfl⟩
  · rw [openedPatterns_none, hState]
    exact List.Subset.refl _
  · rw [openedPatterns_some, hState]
    exact List.append_subset.mpr
      ⟨List.Subset.refl _, List.nil_subset _⟩

------------------------------------------------------------
-- Glyph runs
------------------------------------------------------------

include hAdmits hLookup in
/- An attribute of a glyph run is taken alike. -/
theorem GlyphRun.takeAttribute_agrees
    (run : GlyphRun α)
    (a : Attribute) :
    Action.Agrees L run.patterns GlyphRun.patterns
      (takeAttribute env lookup e run a)
      (takeAttribute (env.under options) lookup' e run a) := by
  have hBrush :
      Action.Agrees L run.patterns Option.toList
        (brushValue env lookup e a.name a.value)
        (brushValue env lookup' e a.name a.value) :=
    brushValue_agrees _ hAdmits.profiles hLookup e _ _
  have hNew (p? : Option (Pattern α)) :
      p?.toList ⊆ p?.toList ++ run.patterns :=
    List.subset_append_left _ _
  have hOld
      {qs : List (Pattern α)}
      (hKept : qs ⊆ run.patterns)
      (p? : Option (Pattern α)) :
      qs ⊆ p?.toList ++ run.patterns :=
    List.Subset.trans hKept (List.subset_append_right _ _)
  unfold takeAttribute
  split
  · exact .pure (List.Subset.refl _)
  · exact .pure (List.Subset.refl _)
  · exact
      .thenPure hBrush fun p? =>
        patterns_subset (hNew p?) (hOld run.mask_subset p?)
  · exact
      .thenPure hBrush fun p? =>
        patterns_subset (hOld run.fill_subset p?) (hNew p?)
  · exact
      .thenPure (geometryValue_agrees _ _) fun _ => List.Subset.refl _
  · exact
      transformWith_agrees _ hAdmits e _ _ (List.Subset.refl _)
  · exact .readPure _ fun _ => List.Subset.refl _
  · exact .readPure _ fun _ => List.Subset.refl _
  · exact .pure (List.Subset.refl _)
  · exact .readPure _ fun _ => List.Subset.refl _
  · exact .pure (List.Subset.refl _)

/- A glyph run has no brushes before its attributes are taken. -/
theorem GlyphRun.patterns_of_read
    {run : GlyphRun α}
    (hOk : GlyphRun.read env e = .ok run) :
    run.patterns = [] := by
  unfold read at hOk
  rcases Except.ok_of_bind hOk with ⟨font, -, hOk⟩
  rcases Except.ok_of_bind hOk with ⟨emSize, -, hOk⟩
  rcases Except.ok_of_bind hOk with ⟨originX, -, hOk⟩
  rcases Except.ok_of_bind hOk with ⟨originY, -, hOk⟩
  rcases Except.ok_of_bind hOk with ⟨emSize, -, hOk⟩
  rcases Except.ok_of_bind hOk with ⟨originX, -, hOk⟩
  rcases Except.ok_of_bind hOk with ⟨originY, -, hOk⟩
  cases hOk
  rfl

include hAdmits hLookup in
/- A glyph run starts alike. -/
theorem GlyphsFrame.begin_agrees :
    Action.Agrees L [] (fun f => f.run.patterns)
      (GlyphsFrame.begin env lookup e)
      (GlyphsFrame.begin (env.under options) lookup' e) := by
  have hRead :
      Action.Agrees L [] GlyphRun.patterns
        (Action.ofExcept (GlyphRun.read env e))
        (Action.ofExcept (GlyphRun.read env e)) := by
    refine .ofGiven fun run hOk => ?_
    rw [GlyphRun.patterns_of_read e hOk]
    exact List.nil_subset _
  unfold begin
  refine .bind hRead fun run =>
    .bind (.draw .save) fun _ =>
      .bind
        (.onError
          (.foldlM (GlyphRun.takeAttribute_agrees hAdmits hLookup e)
            ?_ _))
        fun run => ?_
  · exact List.subset_append_left _ _
  · exact
      .thenPure
        (.draw fun s =>
          (Surface.Draws.onlyIf _ .pushGroup s).trans
            (.onlyIf _ .pushGroup _))
        fun _ => List.subset_append_left _ _

------------------------------------------------------------
-- Canvases
------------------------------------------------------------

include hAdmits hLookup in
/- A canvas starts alike. -/
theorem CanvasFrame.begin_agrees :
    Action.Agrees L [] (fun f => f.mask?.toList)
      (CanvasFrame.begin env lookup e)
      (CanvasFrame.begin (env.under options) lookup' e) := by
  have hTake
      (s : CanvasStyle α)
      (a : Attribute) :
      Action.Agrees L s.mask?.toList (fun s' => s'.mask?.toList)
        (CanvasStyle.takeAttribute env lookup e s a)
        (CanvasStyle.takeAttribute (env.under options) lookup' e s
          a) := by
    unfold CanvasStyle.takeAttribute
    split
    · exact transformWith_agrees _ hAdmits e _ _ (List.Subset.refl _)
    · exact
        .thenPure (geometryValue_agrees _ _) fun _ =>
          List.Subset.refl _
    · exact .readPure _ fun _ => List.Subset.refl _
    · exact
        .thenPure
          (brushValue_agrees _ hAdmits.profiles hLookup e _ _)
          fun _ => List.subset_append_left _ _
    · exact .pure (List.Subset.refl _)
  have hRead :
      Action.Agrees L [] (fun s => s.mask?.toList)
        (CanvasStyle.read env lookup e)
        (CanvasStyle.read (env.under options) lookup' e) :=
    .bind (.foldlM hTake (List.nil_subset _) _) fun s =>
      .thenPure (clipToAny_agrees _ s.clip?) fun _ =>
        List.subset_append_left _ _
  unfold begin
  refine .bind (.draw .save) fun _ =>
    .bind hRead.onError fun style => ?_
  exact
    .thenPure
      (.draw fun s =>
        (Surface.Draws.onlyIf _ .pushGroup s).trans
          (.onlyIf _ .pushGroup _))
      fun _ => List.subset_append_left _ _

------------------------------------------------------------
-- Content
------------------------------------------------------------

include hAdmits hLookup in
/-
  An element of content starts alike. A run that puts up with
  more may go on where a strict one fails.
-/
theorem startContent_agrees :
    Action.Agrees L []
      (fun child? => child?.toList.flatMap Frame.patterns)
      (startContent env lookup e)
      (startContent (env.under options) lookup' e) := by
  have hOnly (child : Frame α) :
      (some child).toList.flatMap Frame.patterns = child.patterns := by
    simp
  unfold startContent
  split
  · refine .thenPure (CanvasFrame.begin_agrees hAdmits hLookup e)
      fun f => ?_
    rw [hOnly]
    exact List.subset_append_left _ _
  · refine .thenPure (PathFrame.begin_agrees hAdmits hLookup e)
      fun f => ?_
    rw [hOnly]
    exact List.subset_append_left _ _
  · refine .thenPure (GlyphsFrame.begin_agrees hAdmits hLookup e)
      fun f => ?_
    rw [hOnly]
    exact List.subset_append_left _ _
  · change
      Action.Agrees L [] _
        (if env.options.strict then Action.fail e.unknown else pure none)
        (if options.strict then Action.fail e.unknown else pure none)
    by_cases hStrict : env.options.strict = true
    · rw [if_pos hStrict]
      rcases hAdmits.options with rfl | ⟨hLax, _, _⟩
      · rw [if_pos hStrict]
        exact .fail _
      · exact fun _ _ _ _ => .lax hLax
    · have hStrict' : ¬ options.strict = true := by
        rcases hAdmits.options with rfl | ⟨_, _, hLess⟩
        · exact hStrict
        · exact fun h => hStrict (hLess h)
      rw [if_neg hStrict, if_neg hStrict']
      exact .pure (List.nil_subset _)

omit [Scalar α] in
/- A dictionary is opened alike. -/
theorem openResources_agrees
    (given : List (Pattern α)) :
    Action.Agrees L given Frame.patterns openResources
      openResources := by
  unfold openResources
  refine .andThen ?_ fun _ =>
    .pure (List.nil_subset _)
  exact fun _ _ hStates _ =>
    .ok (hStates.rescope ResourceScope.push) List.prefix_rfl Shown.nil

include hAdmits hLookup in
/- An element on a page or inside a visual brush starts alike. -/
theorem ContentFrame.startChild_agrees
    (f : ContentFrame α) :
    Action.Agrees L [] (openedPatterns fun _ => [])
      (f.startChild env lookup e)
      (f.startChild (env.under options) lookup' e) := by
  have hContent :
      Action.Agrees L [] (openedPatterns fun _ => [])
        (do
          let child? ← startContent env lookup e
          pure (f, child?))
        (do
          let child? ← startContent (env.under options) lookup' e
          pure (f, child?)) :=
    .thenPure (startContent_agrees hAdmits hLookup e) fun _ =>
      List.subset_append_left _ _
  unfold startChild
  split
  · exact .pure (List.nil_subset _)
  · refine .thenPure (openResources_agrees _) fun child => ?_
    rw [openedPatterns_some]
    exact List.subset_append_left _ _
  · split
    · exact .pure (List.nil_subset _)
    · exact hContent
  · split
    · exact .pure (List.nil_subset _)
    · exact hContent
  · exact hContent

include hAdmits hLookup in
/- An element inside a canvas starts alike. -/
theorem CanvasFrame.startChild_agrees
    (f : CanvasFrame α) :
    Action.Agrees L f.mask?.toList
      (openedPatterns fun f' : CanvasFrame α => f'.mask?.toList)
      (f.startChild env lookup e)
      (f.startChild (env.under options) lookup' e) := by
  have hBeside
      {child : Frame α}
      (hChild : child.patterns = []) :
      openedPatterns (fun f' : CanvasFrame α => f'.mask?.toList)
        (f, some child) ⊆ f.mask?.toList := by
    rw [openedPatterns_some, hChild, List.append_nil]
    exact List.Subset.refl _
  unfold startChild
  split
  · exact .pure (hBeside rfl)
  · exact .pure (hBeside rfl)
  · refine .thenPure (openResources_agrees _) fun child => ?_
    rw [openedPatterns_some]
    exact List.append_subset.mpr
      ⟨List.subset_append_right _ _, List.subset_append_left _ _⟩
  · refine .thenPure
      ((startContent_agrees hAdmits hLookup e).weaken
        (List.nil_subset _) fun _ => List.subset_append_left _ _)
      fun child? => ?_
    exact List.append_subset.mpr
      ⟨List.subset_append_right _ _, List.subset_append_left _ _⟩

include hAdmits in
/- An element inside the owner of dictionaries starts alike. -/
theorem startResources_agrees
    (remote : Bool) :
    Action.Agrees L [] (openedPatterns fun _ => [])
      (startResources env remote e)
      (startResources (env.under options) remote e) := by
  unfold startResources
  split
  · exact .fail _
  · split
    · exact
        .thenPure (loadDictionary_agrees _ hAdmits _) fun _ =>
          List.nil_subset _
    · exact .pure (List.nil_subset _)

/- An element inside an image brush is painted with nothing. -/
theorem ImageBrush.startChild_patterns
    (child? : Option (Frame α))
    (hOk : ImageBrush.startChild e = .ok child?) :
    child?.toList.flatMap Frame.patterns ⊆ [] := by
  unfold startChild at hOk
  split at hOk
  · cases hOk
    exact List.nil_subset _
  · cases hOk

------------------------------------------------------------
-- Elements
------------------------------------------------------------

include hAdmits hLookup in
/- Elements start alike if brushes are looked up alike. -/
theorem startElement_parallel :
    StartsParallel L (startElement env lookup)
      (startElement (env.under options) lookup') := by
  intro frame e
  cases frame with
  | content f =>
      exact
        .thenPure (f.startChild_agrees hAdmits hLookup e) fun _ =>
          List.subset_append_left _ _
  | canvas f =>
      exact
        .thenPure (f.startChild_agrees hAdmits hLookup e) fun _ =>
          List.subset_append_left _ _
  | path f =>
      exact
        .thenPure (f.startChild_agrees hAdmits e) fun _ =>
          List.subset_append_left _ _
  | geometry f =>
      exact
        .thenPure (f.startChild_agrees e) fun _ =>
          List.subset_append_left _ _
  | brush pattern? =>
      exact
        .thenPure (startBrush_agrees hAdmits e pattern?) fun _ =>
          List.subset_append_left _ _
  | gradient g =>
      exact
        .thenPure (g.startChild_agrees hAdmits _ e) fun _ =>
          List.subset_append_left _ _
  | image i =>
      exact
        .thenPure (.ofGiven (ImageBrush.startChild_patterns e))
          fun _ => List.subset_append_left _ _
  | glyphs f =>
      refine .pure ?_
      unfold GlyphsFrame.startChild
      split <;> simp [openedPatterns, Frame.patterns]
  | resources remote =>
      exact
        .thenPure (startResources_agrees hAdmits e remote) fun _ =>
          List.subset_append_left _ _
  | matrix m => exact startStored_parallel (.matrix m) e
  | dictionary current? =>
      exact startStored_parallel (.dictionary current?) e

end

------------------------------------------------------------
-- Pages
------------------------------------------------------------

/-
  A stored brush is read alike if both runs may have as many of
  them under way, or the second one may have more and puts up
  with more.
-/
theorem storedBrush_parallel
    (hAdmits : L.Admits env options)
    {budget budget' : Nat}
    (hBudget : budget' = budget ∨ L.lax = true ∧ budget ≤ budget') :
    LooksUpParallel L (storedBrush env budget)
      (storedBrush (env.under options) budget') := by
  induction budget generalizing budget' with
  | zero =>
      intro key
      rcases hAdmits.options with rfl | ⟨hLax, _⟩
      · rcases hBudget with rfl | ⟨hLax, _⟩
        · exact .fail _
        · exact fun _ _ _ _ => .lax hLax
      · exact fun _ _ _ _ => .lax hLax
  | succ budget ih =>
      intro key
      rcases budget' with _ | budget'
      · omega
      · have hLess :=
          hBudget.imp Nat.succ.inj (And.imp_right Nat.le_of_succ_le_succ)
        refine .bind (Action.resource_agrees _ key) fun markup =>
          .bind
            (runFragment_agrees hAdmits
              (startElement_parallel hAdmits (ih hLess)) _ rfl none _)
            fun product => ?_
        cases product with
        | pattern pattern? => exact .pure (List.subset_append_left _ _)
        | _ => exact .pure (List.nil_subset _)

/- The brushes of a page are looked up alike. -/
theorem pageBrush_parallel
    (hAdmits : L.Admits env options) :
    LooksUpParallel L (pageBrush env) (pageBrush (env.under options)) := by
  refine storedBrush_parallel hAdmits ?_
  rcases hAdmits.options with rfl | ⟨hLax, hMore, _⟩
  · exact .inl rfl
  · exact .inr ⟨hLax, Nat.succ_le_succ hMore⟩

/- The events of a page are rendered alike. -/
theorem renderItems_agrees
    (hAdmits : L.Admits env options)
    (items : List Item)
    {st st' : RenderState α}
    (hStates : L.Relates st st') :
    L.Outcome (fun _ => []) st (renderItems env items st)
      (renderItems (env.under options) items st') :=
  runPart_agrees hAdmits
    (startElement_parallel hAdmits (pageBrush_parallel hAdmits)) items _
    hStates Shown.nil

/- A page is rendered alike. -/
theorem Page.render_agrees
    (hAdmits : L.Admits env options)
    {st st' : RenderState α}
    (hStates : L.Relates st st') :
    L.Outcome (fun _ => []) st (Page.render env st)
      (Page.render (env.under options) st') := by
  have hItems : Page.items (env.under options) = Page.items env := rfl
  unfold Page.render
  rw [hItems]
  cases Page.items env with
  | ok items => exact renderItems_agrees hAdmits items hStates
  | error fault => exact .error hStates List.prefix_rfl

end FixedPage

namespace FixedPage

variable {α : Type}

------------------------------------------------------------
-- Putting up with more
------------------------------------------------------------

/-
  Two runs that have the same in memory, of which the second one
  puts up with more.
-/
def Likeness.lenient : Likeness α :=
  ⟨Eq, Eq, Eq, true⟩

namespace Likeness

variable {env : Environment α} {options : Options}
variable {st st' : RenderState α}

/- Options that allow what the page allows, and maybe more. -/
theorem lenient_admits
    (hDeeper : env.options.maxVisualDepth ≤ options.maxVisualDepth)
    (hLaxer : options.strict = true → env.options.strict = true) :
    lenient.Admits env options :=
  ⟨.same _, .same _, .same _, .inr ⟨rfl, hDeeper, hLaxer⟩⟩

/- Every state is like itself. -/
theorem lenient_relates
    (hSettled : Settled st.surface.written) :
    lenient.Relates st st :=
  ⟨rfl, rfl, rfl, rfl, rfl, rfl, hSettled⟩

/- States that are alike do not differ. -/
theorem Relates.eq_of_lenient
    (hStates : lenient.Relates st st') :
    st' = st := by
  rcases st with ⟨surface, scope, depth, fonts, images, profiles⟩
  rcases st' with ⟨surface', scope', depth', fonts', images', profiles'⟩
  rcases hStates with ⟨rfl, rfl, rfl, hFonts, hImages, hProfiles, -⟩
  change fonts = fonts' at hFonts
  change images = images' at hImages
  change profiles = profiles' at hProfiles
  rw [hFonts, hImages, hProfiles]

/- A run that does not fail is repeated by the second one. -/
theorem Outcome.eq_of_ok
    {β : Type}
    {shows : β → List (Pattern α)}
    {b : β}
    {outcome outcome' : Except Error β × RenderState α}
    (hOutcome : lenient.Outcome shows st outcome outcome')
    (hOk : outcome.1 = .ok b) :
    outcome' = outcome := by
  cases hOutcome with
  | ok hState _ _ => rw [hState.eq_of_lenient]
  | error _ _ => cases hOk
  | lax _ => cases hOk

end Likeness

------------------------------------------------------------
-- Pages
------------------------------------------------------------

/-
  A page that is rendered without a failure is rendered in the
  same way, and leaves the same behind, when visual brushes may be
  nested deeper and when unknown content is passed over.
-/
theorem Page.render_lenient
    [Scalar α]
    (env : Environment α)
    (options : Options)
    (fonts : Cache (Font α))
    (images : Cache (Image α))
    (profiles : ProfileCache α)
    (hDeeper : env.options.maxVisualDepth ≤ options.maxVisualDepth)
    (hLaxer : options.strict = true → env.options.strict = true)
    (hOk :
      (Page.render env (.start fonts images profiles)).1 = .ok ()) :
    Page.render (env.under options) (.start fonts images profiles) =
      Page.render env (.start fonts images profiles) := by
  have hStates :
      Likeness.lenient.Relates (.start fonts images profiles)
        (.start fonts images profiles) :=
    Likeness.lenient_relates .nil
  exact
    (Page.render_agrees (Likeness.lenient_admits hDeeper hLaxer)
      hStates).eq_of_ok hOk

------------------------------------------------------------
-- A strict page
------------------------------------------------------------

namespace StrictPage

/-
  A page with a path that is filled with the picture of another
  one, where unknown content is a failure and no visual brush may
  stand inside one.
-/
def env : Environment ℚ :=
  { Environment.empty with
    part? := fun _ =>
      some (Text.Utf8.encode
        ("<FixedPage><Path Data=\"M 0,0 L 8,0 8,8 Z\"><Path.Fill>"
          ++ "<VisualBrush Viewbox=\"0,0,1,1\" Viewport=\"0,0,2,2\">"
          ++ "<VisualBrush.Visual><Path Fill=\"#FF0000\" "
          ++ "Data=\"M 0,0 L 1,0 1,1 Z\"/></VisualBrush.Visual>"
          ++ "</VisualBrush></Path.Fill></Path></FixedPage>").toList)
    options := ⟨1, true⟩ }

/- The state before the page is drawn. -/
def start : RenderState ℚ :=
  .start .empty .empty .empty

end StrictPage

/- The page is drawn in the same way under the usual options. -/
theorem StrictPage.drawn_leniently :
    (Page.render StrictPage.env StrictPage.start).1 = .ok () ∧
      Page.render (StrictPage.env.under .standard) StrictPage.start =
        Page.render StrictPage.env StrictPage.start := by
  have hOk :
      (Page.render StrictPage.env StrictPage.start).1 = .ok () := by
    decide +kernel
  exact
    ⟨hOk,
      Page.render_lenient StrictPage.env .standard .empty .empty .empty
        (by decide) (by decide) hOk⟩

end FixedPage
