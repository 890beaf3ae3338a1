import FixedPage.Proofs.Mirror.Running
import FixedPage.Render.Page

/-
  This file shows that elements start alike in two states of
  which one is ahead, wherever their places are. The brushes of a
  page are looked up alike, by induction on how many of them may
  be under way at once.

  Main declarations:
    * `startBrush_mirrors`
    * `PathFrame.startChild_mirrors`
    * `startContent_mirrors`
    * `startElement_alike`
    * `pageBrush_alike`
    * `pageElement_alike`
-/

namespace FixedPage

open Markup

variable {α : Type} [Scalar α]
variable {env : Environment α} {d : Shift α} {same : Bool}

------------------------------------------------------------
-- Solid colors
------------------------------------------------------------

/- An attribute of a brush of one color is taken alike. -/
theorem SolidBrush.takeAttribute_mirrors
    (e : Element)
    (place : Location)
    (b : SolidBrush α)
    (a : Attribute) :
    Action.Mirrors env d same id (takeAttribute env e b a)
      (takeAttribute env (e.moved place) b a) := by
  unfold takeAttribute
  split
  · exact .thenPure (colorValue_mirrors e place _ _) fun _ => rfl
  · exact .readPure e place _ _ _ fun _ => rfl
  · split
    · exact .pure rfl
    · exact .fail rfl

/- A brush of one color is read alike. -/
theorem SolidBrush.read_mirrors
    (e : Element)
    (place : Location) :
    Action.Mirrors env d same id (SolidBrush.read env e)
      (SolidBrush.read env (e.moved place)) :=
  .bind (.foldlM (takeAttribute_mirrors e place) _ rfl _)
    fun _ =>
      .thenPure (.ofExcept (e.required_moved place _)) fun _ => rfl

------------------------------------------------------------
-- Gradients and tiles
------------------------------------------------------------

/- A common attribute of brushes is taken alike. -/
theorem BrushStyle.takeAttribute_mirrors
    (grammar : BrushGrammar)
    (e : Element)
    (place : Location)
    (s : BrushStyle α)
    (a : Attribute) :
    Action.Mirrors env d same id (takeAttribute env grammar e s a)
      (takeAttribute env grammar (e.moved place) s a) := by
  unfold takeAttribute
  split
  · exact .pure rfl
  · split
    · exact .pure rfl
    · split
      · exact .readPure e place _ _ _ fun _ => rfl
      · split
        · exact
            .thenPure (transformValue_mirrors e place _ _) fun _ => rfl
        · exact .fail rfl

/- The common attributes of brushes are read alike. -/
theorem BrushStyle.read_mirrors
    (grammar : BrushGrammar)
    (extend : Extend)
    (e : Element)
    (place : Location) :
    Action.Mirrors (α := α) env d same id
      (BrushStyle.read env grammar extend e)
      (BrushStyle.read env grammar extend (e.moved place)) :=
  .foldlM (takeAttribute_mirrors grammar e place) _ rfl _

/- The course of a gradient along a line is read alike. -/
theorem GradientShape.readLinear_moved
    (e : Element)
    (place : Location) :
    Except.Alike id (readLinear (α := α) e)
      (readLinear (e.moved place)) :=
  (e.required_moved place _).bind fun _ =>
    (e.required_moved place _).bind fun _ =>
      (e.read_moved place _ _ _).bind fun _ =>
        (e.read_moved place _ _ _).bind fun _ => .ok _

/- The course of a gradient between ellipses is read alike. -/
theorem GradientShape.readRadial_moved
    (e : Element)
    (place : Location) :
    Except.Alike id (readRadial (α := α) e)
      (readRadial (e.moved place)) :=
  (e.readRequired_moved place _ _).bind fun _ =>
    (e.readRequired_moved place _ _).bind fun _ =>
      (e.readRequired_moved place _ _).bind fun _ =>
        (e.readRequired_moved place _ _).bind fun _ => .ok _

/- A gradient is read alike if its course is. -/
theorem GradientBrush.read_mirrors
    (course : List String)
    {shapeOf : Element → Except Error (GradientShape α)}
    (e : Element)
    (place : Location)
    (hShape : Except.Alike id (shapeOf e) (shapeOf (e.moved place))) :
    Action.Mirrors env d same id
      (GradientBrush.read env course shapeOf e)
      (GradientBrush.read env course shapeOf (e.moved place)) :=
  (BrushStyle.read_mirrors _ _ e place).bind fun _ =>
    .thenPure (.ofExcept hShape) fun _ => rfl

/- A stop of a gradient is read alike. -/
theorem GradientBrush.readStop_mirrors
    (e : Element)
    (place : Location) :
    Action.Mirrors (α := α) env d same id (readStop env e)
      (readStop env (e.moved place)) := by
  have hStop :
      Action.Mirrors (α := α) env d same id
        (do
          let color ← Action.ofExcept (e.required "Color")
          let offset ←
            Action.ofExcept (e.readRequired "Offset" Value.number?)
          let color? ← colorValue env e "Color" color
          pure (color?.map fun color => GradientStop.mk offset color))
        (do
          let color ←
            Action.ofExcept ((e.moved place).required "Color")
          let offset ←
            Action.ofExcept
              ((e.moved place).readRequired "Offset" Value.number?)
          let color? ← colorValue env (e.moved place) "Color" color
          pure (color?.map fun color => GradientStop.mk offset color)) :=
    .bind (.ofExcept (e.required_moved place _)) fun _ =>
      .bind (.ofExcept (e.readRequired_moved place _ _)) fun _ =>
        .thenPure (colorValue_mirrors e place _ _) fun _ => rfl
  unfold readStop
  dsimp only
  rw [Element.attributes_moved]
  split
  · exact
      .bind (f := id) (.fail rfl) fun _ => hStop
  · exact hStop

/- An element inside a gradient starts alike. -/
theorem GradientBrush.startChild_mirrors
    (g : GradientBrush α)
    (e : Element)
    (place : Location) :
    Action.Mirrors env d same
      (Prod.map id (Option.map (Frame.raise d.groups)))
      (g.startChild env e) (g.startChild env (e.moved place)) := by
  unfold startChild
  rw [Element.name_moved]
  split
  · exact .pure rfl
  · exact .pure rfl
  · exact .pure rfl
  · exact .pure rfl
  · exact .thenPure (readStop_mirrors e place) fun _ => rfl
  · exact .fail rfl

/- An image brush is read alike. -/
theorem ImageBrush.read_mirrors
    (e : Element)
    (place : Location) :
    Action.Mirrors (α := α) env d same id (ImageBrush.read env e)
      (ImageBrush.read env (e.moved place)) :=
  (BrushStyle.read_mirrors _ _ e place).bind fun _ =>
    .ofExcept
      ((e.required_moved place _).bind fun _ =>
        (e.required_moved place _).bind fun _ =>
          (e.required_moved place _).bind fun _ =>
            (e.read_moved place _ _ _).bind fun _ =>
              (e.read_moved place _ _ _).bind fun _ => .ok _)

/- An element inside an image brush starts alike. -/
theorem ImageBrush.startChild_moved
    (k : Nat)
    (e : Element)
    (place : Location) :
    Except.Alike (Option.map (Frame.raise k))
      (ImageBrush.startChild (α := α) e)
      (ImageBrush.startChild (e.moved place)) := by
  unfold startChild
  rw [Element.name_moved]
  split
  · exact .ok (some (Frame.matrix .identity))
  · exact .error rfl

------------------------------------------------------------
-- Visual brushes
------------------------------------------------------------

omit [Scalar α] in
/- Too many visual brushes are under way in both states. -/
theorem VisualBrush.checkDepth_mirrors
    (limit : Nat) :
    Action.Mirrors env d same id (checkDepth limit)
      (checkDepth limit) := by
  intro st st' hFollows
  unfold checkDepth
  rw [Action.perform_ofEffect, Action.perform_ofEffect,
    hFollows.visualDepth]
  by_cases hDepth : st.visualDepth < limit
  · rw [if_pos hDepth, if_pos hDepth]
    exact ⟨.ok (), hFollows⟩
  · rw [if_neg hDepth, if_neg hDepth]
    exact ⟨.error rfl, hFollows⟩

/- The layout of a visual brush is read alike. -/
theorem VisualBrush.read_mirrors
    (e : Element)
    (place : Location) :
    Action.Mirrors (α := α) env d same id (VisualBrush.read env e)
      (VisualBrush.read env (e.moved place)) :=
  (BrushStyle.read_mirrors _ _ e place).bind fun _ =>
    .ofExcept
      ((e.required_moved place _).bind fun _ =>
        (e.required_moved place _).bind fun _ =>
          (e.read_moved place _ _ _).bind fun _ =>
            (e.read_moved place _ _ _).bind fun _ => .ok _)

/- The group of a visual brush is opened on both surfaces. -/
theorem VisualBrush.openGroup_raises
    (v : VisualBrush α) :
    Surface.Raises d v.openGroup v.openGroup := by
  have hGroup :
      Surface.Raises d
        (fun s : Surface α =>
          (s.save.newPath.rectangle ⟨0, 0, v.width, v.height⟩
            ).clip.pushGroup)
        (fun s : Surface α =>
          (s.save.newPath.rectangle ⟨0, 0, v.width, v.height⟩
            ).clip.pushGroup) :=
    (((Surface.Raises.save.comp .newPath).comp
      (.takeAll _)).comp .clip).comp .pushGroup
  unfold openGroup
  refine hGroup.comp (g := v.fitViewbox) ?_
  unfold fitViewbox
  split
  · exact .keep
  · exact (Surface.Raises.transform _).comp (.transform _)

/- A visual brush starts alike. -/
theorem VisualBrush.begin_mirrors
    (e : Element)
    (place : Location) :
    Action.Mirrors (α := α) env d same id (VisualBrush.begin env e)
      (VisualBrush.begin env (e.moved place)) := by
  unfold begin
  refine (checkDepth_mirrors _).bind fun _ =>
    (read_mirrors e place).bind fun v => ?_
  refine .bind (f := id) (fun st st' hFollows => ?_) fun _ => .pure rfl
  have hState := hFollows.draw v.openGroup_raises
  exact ⟨.ok (), hState.redepth (by rw [hFollows.visualDepth])⟩

/- The element of a brush starts alike. -/
theorem startBrush_mirrors
    (pattern? : Option (Pattern α))
    (e : Element)
    (place : Location) :
    Action.Mirrors env d same
      (Prod.map (Option.map (Pattern.raise d.groups))
        (Option.map (Frame.raise d.groups)))
      (startBrush env pattern? e)
      (startBrush env (pattern?.map (Pattern.raise d.groups))
        (e.moved place)) := by
  unfold startBrush
  rw [Element.name_moved]
  split
  · refine (SolidBrush.read_mirrors e place).thenPure fun b => ?_
    rcases b with ⟨color?, opacity⟩
    cases color? <;> rfl
  · exact
      .thenPure
        (GradientBrush.read_mirrors _ e place
          (GradientShape.readLinear_moved e place))
        fun _ => rfl
  · exact
      .thenPure
        (GradientBrush.read_mirrors _ e place
          (GradientShape.readRadial_moved e place))
        fun _ => rfl
  · exact .thenPure (ImageBrush.read_mirrors e place) fun _ => rfl
  · exact .thenPure (VisualBrush.begin_mirrors e place) fun _ => rfl
  · exact .fail rfl

------------------------------------------------------------
-- Paths
------------------------------------------------------------

section

variable {lookup : BrushLookup α}

/- A matrix is read and applied alike. -/
theorem transformWith_mirrors
    {β γ : Type}
    {f : β → γ}
    {b : β}
    {c : γ}
    (e : Element)
    (place : Location)
    (name value : String)
    (hValue : c = f b) :
    Action.Mirrors env d same f
      (do
        let matrix ← transformValue env e name value
        Action.draw (Surface.transform matrix)
        pure b)
      (do
        let matrix ← transformValue env (e.moved place) name value
        Action.draw (Surface.transform matrix)
        pure c) :=
  (transformValue_mirrors e place name value).bind fun m =>
    .bind (.draw (.transform m)) fun _ => .pure hValue

/- An attribute of a stroke style is taken alike. -/
theorem StrokeStyle.takeAttribute?_moved
    (e : Element)
    (place : Location)
    (s : StrokeStyle α)
    (a : Attribute) :
    (s.takeAttribute? e a = none ∧
        s.takeAttribute? (e.moved place) a = none) ∨
      ∃ taken taken',
        s.takeAttribute? e a = some taken ∧
          s.takeAttribute? (e.moved place) a = some taken' ∧
            Except.Alike id taken taken' := by
  unfold takeAttribute?
  split
  · exact
      .inr ⟨_, _, rfl, rfl, (e.read_moved place _ _ _).bind
        fun _ => .ok _⟩
  · exact
      .inr ⟨_, _, rfl, rfl, (e.read_moved place _ _ _).bind
        fun _ => .ok _⟩
  · exact
      .inr ⟨_, _, rfl, rfl, (e.read_moved place _ _ _).bind
        fun _ => .ok _⟩
  · exact .inr ⟨_, _, rfl, rfl, .ok _⟩
  · exact .inr ⟨_, _, rfl, rfl, .ok _⟩
  · exact .inr ⟨_, _, rfl, rfl, .ok _⟩
  · exact
      .inr ⟨_, _, rfl, rfl, (e.read_moved place _ _ _).bind
        fun _ => .ok _⟩
  · exact .inl ⟨rfl, rfl⟩

/- An attribute of a path is taken alike. -/
theorem PathState.takeAttribute_mirrors
    (hLookup : LooksUpAlike env d same lookup)
    (e : Element)
    (place : Location)
    (state : PathState α)
    (a : Attribute) :
    Action.Mirrors env d same (PathState.raise d.groups)
      (takeAttribute env lookup e state a)
      (takeAttribute env lookup (e.moved place)
        (state.raise d.groups) a) := by
  unfold takeAttribute
  split
  · exact .thenPure (geometryValue_mirrors _) fun _ => rfl
  · exact .thenPure (geometryValue_mirrors _) fun _ => rfl
  · exact transformWith_mirrors e place _ _ rfl
  · exact
      .thenPure (brushValue_mirrors hLookup e place _ _) fun _ => rfl
  · exact
      .thenPure (brushValue_mirrors hLookup e place _ _) fun _ => rfl
  · exact
      .thenPure (brushValue_mirrors hLookup e place _ _) fun _ => rfl
  · exact .readPure e place _ _ _ fun _ => rfl
  · have hStyle :
        (state.raise d.groups).strokeStyle = state.strokeStyle := rfl
    rw [hStyle]
    rcases state.strokeStyle.takeAttribute?_moved e place a with
      ⟨hNone, hNone'⟩ | ⟨taken, taken', hSome, hSome', hTaken⟩
    · rw [hNone, hNone']
      exact .pure rfl
    · rw [hSome, hSome']
      exact .thenPure (.ofExcept hTaken) fun _ => rfl

/- A path starts alike. -/
theorem PathFrame.begin_mirrors
    (hLookup : LooksUpAlike env d same lookup)
    (e : Element)
    (place : Location) :
    Action.Mirrors env d same (PathFrame.raise d.groups)
      (PathFrame.begin env lookup e)
      (PathFrame.begin env lookup (e.moved place)) := by
  unfold begin
  refine .bind (.draw .save) fun _ =>
    .bind
      (.onError
        (.foldlM
          (PathState.takeAttribute_mirrors hLookup e place) _ rfl _)
        fun _ _ hFollows => hFollows.draw .restore)
      fun state => ?_
  exact .bind (.draw (.onlyIf _ .pushGroup)) fun _ => .pure rfl

omit [Scalar α] in
/- The geometry of a clip is taken alike. -/
theorem PathFrame.takeClip_raise
    (k : Nat)
    (f : PathFrame α)
    (e : Element)
    (place : Location) :
    (f.raise k).takeClip (e.moved place) = (f.takeClip e).raise k := by
  unfold takeClip
  rw [Element.value?_moved]
  split <;> rfl

/- An attribute of the geometry of a path is taken alike. -/
theorem PathFrame.takeGeometryAttribute_mirrors
    (e : Element)
    (place : Location)
    (f : PathFrame α)
    (a : Attribute) :
    Action.Mirrors env d same (PathFrame.raise d.groups)
      (takeGeometryAttribute env e f a)
      (takeGeometryAttribute env (e.moved place) (f.raise d.groups)
        a) := by
  unfold takeGeometryAttribute
  split
  · exact .pure rfl
  · exact transformWith_mirrors e place _ _ rfl
  · exact .pure rfl

/- The geometry of a path starts alike. -/
theorem PathFrame.startGeometry_mirrors
    (f : PathFrame α)
    (e : Element)
    (place : Location) :
    Action.Mirrors env d same
      (Prod.map (PathFrame.raise d.groups)
        (Option.map (Frame.raise d.groups)))
      (f.startGeometry env e)
      ((f.raise d.groups).startGeometry env (e.moved place)) := by
  unfold startGeometry
  refine .bind
    (.foldlM (takeGeometryAttribute_mirrors e place) f rfl _)
    fun f => ?_
  have hFigures :
      lastValue? (e.moved place) "Figures" = lastValue? e "Figures" :=
    rfl
  rw [hFigures]
  split
  · exact .pure rfl
  · exact
      .bind (.draw (.recordSame rfl)) fun _ =>
        .thenPure (clipToAny_mirrors f.state.clip?) fun _ => rfl

/- An element inside a path starts alike. -/
theorem PathFrame.startChild_mirrors
    (f : PathFrame α)
    (e : Element)
    (place : Location) :
    Action.Mirrors env d same
      (Prod.map (PathFrame.raise d.groups)
        (Option.map (Frame.raise d.groups)))
      (f.startChild env e)
      ((f.raise d.groups).startChild env (e.moved place)) := by
  have hClip : (f.raise d.groups).inClip = f.inClip := rfl
  unfold startChild
  rw [Element.name_moved, hClip, takeClip_raise]
  split
  · exact .pure rfl
  · exact .pure rfl
  · exact .pure rfl
  · exact .pure rfl
  · exact .pure rfl
  · split
    · exact .pure rfl
    · exact f.startGeometry_mirrors e place
  · exact .pure rfl

------------------------------------------------------------
-- Figures
------------------------------------------------------------

omit [Scalar α] in
/- An attribute of a figure is taken alike. -/
theorem GeometryFrame.takeFigureAttribute_moved
    (k : Nat)
    (e : Element)
    (place : Location)
    (state : PathState α)
    (a : Attribute) :
    Except.Alike (PathState.raise k) (takeFigureAttribute e state a)
      (takeFigureAttribute (e.moved place) (state.raise k) a) := by
  unfold takeFigureAttribute
  split
  · exact (e.read_moved place _ _ _).bind fun _ => .ok _
  · exact (e.read_moved place _ _ _).bind fun _ => .ok _
  · exact .ok state

/- A figure starts alike. -/
theorem GeometryFrame.startFigure_moved
    (k : Nat)
    (f : GeometryFrame α)
    (e : Element)
    (place : Location) :
    Except.Alike (GeometryFrame.raise k) (f.startFigure e)
      ((f.raise k).startFigure (e.moved place)) :=
  (e.readRequired_moved place _ _).bind fun _ =>
    (Except.Alike.foldlM (takeFigureAttribute_moved k e place)
      { f.state with isClosed := false, isFilled := true }
      e.attributes).bind fun _ => .ok _

/- A segment is added alike. -/
theorem GeometryFrame.addSegment_moved
    (k : Nat)
    (f : GeometryFrame α)
    (e : Element)
    (place : Location) :
    Except.Alike (GeometryFrame.raise k) (f.addSegment e)
      ((f.raise k).addSegment (e.moved place)) := by
  unfold addSegment
  refine (e.required_moved place _).bind fun value =>
    (e.read_moved place _ _ _).bind fun points => ?_
  have hFigure : (f.raise k).figure = f.figure := rfl
  dsimp only [id]
  rw [Element.value?_moved, Element.name_moved, hFigure]
  cases e.value? "IsStroked" with
  | some flag =>
      refine (e.read_moved place _ _ _).bind fun stroked => ?_
      cases stroked with
      | true =>
          cases f.figure.addPoints? e.name points with
          | some figure => exact .ok _
          | none => exact .error rfl
      | false => exact .ok f
  | none =>
      cases f.figure.addPoints? e.name points with
      | some figure => exact .ok _
      | none => exact .error rfl

/- An element inside a geometry starts alike. -/
theorem GeometryFrame.startChild_moved
    (k : Nat)
    (f : GeometryFrame α)
    (e : Element)
    (place : Location) :
    Except.Alike
      (Prod.map (GeometryFrame.raise k) (Option.map (Frame.raise k)))
      (f.startChild e) ((f.raise k).startChild (e.moved place)) := by
  unfold startChild
  rw [Element.name_moved]
  split
  · exact .ok (f, some (Frame.matrix .identity))
  · exact (f.startFigure_moved k e place).map fun _ => rfl
  · exact (f.addSegment_moved k e place).map fun _ => rfl
  · exact (f.addSegment_moved k e place).map fun _ => rfl
  · exact (f.addSegment_moved k e place).map fun _ => rfl
  · exact .ok (f, none)

------------------------------------------------------------
-- Glyph runs
------------------------------------------------------------

/- What a glyph run cannot do without is read alike. -/
theorem GlyphRun.read_moved
    (k : Nat)
    (e : Element)
    (place : Location) :
    Except.Alike (GlyphRun.raise k) (GlyphRun.read env e)
      (GlyphRun.read env (e.moved place)) :=
  (e.required_moved place _).bind fun _ =>
    (e.required_moved place _).bind fun _ =>
      (e.required_moved place _).bind fun _ =>
        (e.required_moved place _).bind fun _ =>
          (e.read_moved place _ _ _).bind fun _ =>
            (e.read_moved place _ _ _).bind fun _ =>
              (e.read_moved place _ _ _).bind fun _ => .ok _

/- An attribute of a glyph run is taken alike. -/
theorem GlyphRun.takeAttribute_mirrors
    (hLookup : LooksUpAlike env d same lookup)
    (e : Element)
    (place : Location)
    (run : GlyphRun α)
    (a : Attribute) :
    Action.Mirrors env d same (GlyphRun.raise d.groups)
      (takeAttribute env lookup e run a)
      (takeAttribute env lookup (e.moved place) (run.raise d.groups)
        a) := by
  unfold takeAttribute
  split
  · exact .pure rfl
  · exact .pure rfl
  · exact
      .thenPure (brushValue_mirrors hLookup e place _ _) fun _ => rfl
  · exact
      .thenPure (brushValue_mirrors hLookup e place _ _) fun _ => rfl
  · exact .thenPure (geometryValue_mirrors _) fun _ => rfl
  · exact transformWith_mirrors e place _ _ rfl
  · exact .readPure e place _ _ _ fun _ => rfl
  · exact .readPure e place _ _ _ fun _ => rfl
  · exact .pure rfl
  · exact .readPure e place _ _ _ fun _ => rfl
  · exact .pure rfl

/- A glyph run starts alike. -/
theorem GlyphsFrame.begin_mirrors
    (hLookup : LooksUpAlike env d same lookup)
    (e : Element)
    (place : Location) :
    Action.Mirrors env d same (GlyphsFrame.raise d.groups)
      (GlyphsFrame.begin env lookup e)
      (GlyphsFrame.begin env lookup (e.moved place)) := by
  unfold begin
  refine .bind (.ofExcept (GlyphRun.read_moved d.groups e place))
    fun run =>
      .bind (.draw .save) fun _ =>
        .bind
          (.onError
            (.foldlM
              (GlyphRun.takeAttribute_mirrors hLookup e place) _ rfl _)
            fun _ _ hFollows => hFollows.draw .restore)
          fun run => ?_
  have hMask :
      (run.raise d.groups).mask?.isSome = run.mask?.isSome :=
    Option.isSome_map
  dsimp only
  rw [hMask]
  exact
    .bind
      (.draw
        ((Surface.Raises.onlyIf _ .pushGroup).comp
          (.onlyIf _ .pushGroup)))
      fun _ => .pure rfl

omit [Scalar α] in
/- The frame of an element inside a glyph run knows no group. -/
theorem GlyphsFrame.startChild_raise
    [Scalar α]
    (k : Nat)
    (e : Element)
    (place : Location) :
    startChild (α := α) (e.moved place) =
      (startChild e).map (Frame.raise k) := by
  unfold startChild
  rw [Element.name_moved]
  split <;> rfl

------------------------------------------------------------
-- Canvases
------------------------------------------------------------

omit [Scalar α] in
/- Raises the group number in the mask of a canvas. -/
def CanvasStyle.raise
    (k : Nat)
    (s : CanvasStyle α) : CanvasStyle α :=
  { s with mask? := s.mask?.map (Pattern.raise k) }

/- An attribute of a canvas is taken alike. -/
theorem CanvasStyle.takeAttribute_mirrors
    (hLookup : LooksUpAlike env d same lookup)
    (e : Element)
    (place : Location)
    (s : CanvasStyle α)
    (a : Attribute) :
    Action.Mirrors env d same (CanvasStyle.raise d.groups)
      (takeAttribute env lookup e s a)
      (takeAttribute env lookup (e.moved place) (s.raise d.groups)
        a) := by
  unfold takeAttribute
  split
  · exact transformWith_mirrors e place _ _ rfl
  · exact .thenPure (geometryValue_mirrors _) fun _ => rfl
  · exact .readPure e place _ _ _ fun _ => rfl
  · exact
      .thenPure (brushValue_mirrors hLookup e place _ _) fun _ => rfl
  · exact .pure rfl

/- A canvas starts alike. -/
theorem CanvasFrame.begin_mirrors
    (hLookup : LooksUpAlike env d same lookup)
    (e : Element)
    (place : Location) :
    Action.Mirrors env d same (CanvasFrame.raise d.groups)
      (CanvasFrame.begin env lookup e)
      (CanvasFrame.begin env lookup (e.moved place)) := by
  have hRead :
      Action.Mirrors env d same (CanvasStyle.raise d.groups)
        (CanvasStyle.read env lookup e)
        (CanvasStyle.read env lookup (e.moved place)) :=
    .bind
      (.foldlM (CanvasStyle.takeAttribute_mirrors hLookup e place) _
        rfl _)
      fun s =>
        .thenPure (clipToAny_mirrors s.clip?) fun _ => rfl
  unfold begin
  refine .bind (.draw .save) fun _ =>
    .bind
      (hRead.onError fun _ _ hFollows => hFollows.draw .restore)
      fun style => ?_
  have hMask :
      (style.raise d.groups).mask?.isSome = style.mask?.isSome :=
    Option.isSome_map
  dsimp only
  rw [hMask]
  exact
    .bind
      (.draw
        ((Surface.Raises.onlyIf _ .pushGroup).comp
          (.onlyIf _ .pushGroup)))
      fun _ => .pure rfl

------------------------------------------------------------
-- Content
------------------------------------------------------------

/- An element of content starts alike. -/
theorem startContent_mirrors
    (hLookup : LooksUpAlike env d same lookup)
    (e : Element)
    (place : Location) :
    Action.Mirrors env d same (Option.map (Frame.raise d.groups))
      (startContent env lookup e)
      (startContent env lookup (e.moved place)) := by
  unfold startContent
  rw [Element.name_moved]
  split
  · exact
      .thenPure (CanvasFrame.begin_mirrors hLookup e place)
        fun _ => rfl
  · exact
      .thenPure (PathFrame.begin_mirrors hLookup e place) fun _ => rfl
  · exact
      .thenPure (GlyphsFrame.begin_mirrors hLookup e place)
        fun _ => rfl
  · split
    · exact .fail rfl
    · exact .pure rfl

omit [Scalar α] in
/- A dictionary is opened alike. -/
theorem openResources_mirrors :
    Action.Mirrors (α := α) env d same (Frame.raise d.groups)
      openResources openResources := by
  unfold openResources
  refine .bind (f := id) (fun st st' hFollows => ?_) fun _ => .pure rfl
  exact ⟨.ok (), hFollows.rescope (by rw [hFollows.scope])⟩

/- An element on a page or inside a visual brush starts alike. -/
theorem ContentFrame.startChild_mirrors
    (hLookup : LooksUpAlike env d same lookup)
    (f : ContentFrame α)
    (e : Element)
    (place : Location) :
    Action.Mirrors env d same
      (Prod.map id (Option.map (Frame.raise d.groups)))
      (f.startChild env lookup e)
      (f.startChild env lookup (e.moved place)) := by
  have hContent :
      Action.Mirrors env d same
        (Prod.map id (Option.map (Frame.raise d.groups)))
        (do
          let child? ← startContent env lookup e
          pure (f, child?))
        (do
          let child? ← startContent env lookup (e.moved place)
          pure (f, child?)) :=
    .thenPure (startContent_mirrors hLookup e place) fun _ => rfl
  unfold startChild
  rw [Element.name_moved]
  split
  · exact .pure rfl
  · exact .thenPure openResources_mirrors fun _ => rfl
  · split
    · exact .pure rfl
    · exact hContent
  · split
    · exact .pure rfl
    · exact hContent
  · exact hContent

/- An element inside a canvas starts alike. -/
theorem CanvasFrame.startChild_mirrors
    (hLookup : LooksUpAlike env d same lookup)
    (f : CanvasFrame α)
    (e : Element)
    (place : Location) :
    Action.Mirrors env d same
      (Prod.map (CanvasFrame.raise d.groups)
        (Option.map (Frame.raise d.groups)))
      (f.startChild env lookup e)
      ((f.raise d.groups).startChild env lookup (e.moved place)) := by
  unfold startChild
  rw [Element.name_moved]
  split
  · exact .pure rfl
  · exact .pure rfl
  · exact .thenPure openResources_mirrors fun _ => rfl
  · exact
      .thenPure (startContent_mirrors hLookup e place) fun _ => rfl

/- An element inside the owner of dictionaries starts alike. -/
theorem startResources_mirrors
    (remote : Bool)
    (e : Element)
    (place : Location) :
    Action.Mirrors (α := α) env d same
      (Prod.map id (Option.map (Frame.raise d.groups)))
      (startResources env remote e)
      (startResources env remote (e.moved place)) := by
  unfold startResources
  rw [Element.name_moved, Element.value?_moved]
  split
  · exact .fail rfl
  · split
    · exact .thenPure (loadDictionary_mirrors _) fun _ => rfl
    · exact .pure rfl

------------------------------------------------------------
-- Elements
------------------------------------------------------------

/- Elements start alike if brushes are looked up alike. -/
theorem startElement_alike
    (hLookup : LooksUpAlike env d same lookup) :
    StartsAlike env d same (startElement env lookup) := by
  intro frame e place
  cases frame with
  | content f =>
      exact
        .thenPure (f.startChild_mirrors hLookup e place) fun _ => rfl
  | canvas f =>
      exact
        .thenPure (f.startChild_mirrors hLookup e place) fun _ => rfl
  | path f =>
      exact .thenPure (f.startChild_mirrors e place) fun _ => rfl
  | geometry f =>
      exact
        .thenPure (.ofExcept (f.startChild_moved d.groups e place))
          fun _ => rfl
  | brush pattern? =>
      exact
        .thenPure (startBrush_mirrors pattern? e place) fun _ => rfl
  | gradient g =>
      exact .thenPure (g.startChild_mirrors e place) fun _ => rfl
  | image i =>
      exact
        .thenPure
          (.ofExcept (ImageBrush.startChild_moved d.groups e place))
          fun _ => rfl
  | glyphs f =>
      refine .pure ?_
      rw [GlyphsFrame.startChild_raise d.groups]
      rfl
  | resources remote =>
      exact
        .thenPure (startResources_mirrors remote e place) fun _ => rfl
  | matrix m => exact startStored_alike (.matrix m) e place
  | dictionary current? =>
      exact startStored_alike (.dictionary current?) e place

end

/- A stored brush is read alike, whatever its budget. -/
theorem storedBrush_alike
    (budget : Nat) :
    LooksUpAlike env d same (storedBrush env budget) := by
  induction budget with
  | zero => exact fun key => .fail rfl
  | succ budget ih =>
      intro key
      refine (Action.resource_mirrors key).bind fun markup =>
        .bind
          (runFragment_mirrors (startElement_alike ih) (.brush none)
            none _)
          fun product => ?_
      cases product <;> exact .pure rfl

/- The brushes of a page are looked up alike. -/
theorem pageBrush_alike :
    LooksUpAlike env d same (pageBrush env) :=
  storedBrush_alike _

/- The elements of a page start alike. -/
theorem pageElement_alike
    (env : Environment α)
    (d : Shift α)
    (same : Bool) :
    StartsAlike env d same (startElement env (pageBrush env)) :=
  startElement_alike pageBrush_alike

end FixedPage
