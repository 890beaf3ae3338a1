import FixedPage.Proofs.Render.Steady

/-
  This file says all that can happen when an element starts
  inside a frame. The frame keeps its outline but for the
  dictionaries it has opened, and what the new frame holds open
  has just been opened.

  Main declarations:
    * `openGroups`
    * `Frame.Opened`
    * `Frame.Started`
    * `startElement_started`
-/

namespace FixedPage

open Markup

variable {α : Type}

------------------------------------------------------------
-- Outcomes
------------------------------------------------------------

/- Opens the groups of an element, the outer one first. -/
def openGroups
    (o : FrameOutline)
    (s : Surface α) : Surface α :=
  onlyIf o.inMask Surface.pushGroup
    (onlyIf o.inOpacity Surface.pushGroup s)

section

variable [Scalar α]
variable (R : Bool → RenderState α → RenderState α → Prop)

/-
  The frame of an element that draws has been opened: a save,
  the attributes, and the groups that they ask for.
-/
structure Frame.Opened
    (frame : Frame α)
    (st st' : RenderState α) : Prop where
  draws : frame.kind.draws = true
  consistent : frame.Consistent
  dictionaries : frame.outline.dictionaries = 0
  state :
    ∃ read,
      R true (st.draw Surface.save) read ∧
        st' = read.draw (openGroups frame.outline)

/-
  What an element that starts inside `frame` makes of the frame,
  which frame it owns, and what it makes of the state.
-/
inductive Frame.Started
    (limit : Nat)
    (frame : Frame α)
    (st : RenderState α) :
    Frame α → Option (Frame α) → RenderState α → Prop
| steady
    {frame' : Frame α}
    {st' : RenderState α}
    (hSame : frame'.outline = frame.outline)
    (hState : R frame.kind.turnsEarly st st') :
    Started limit frame st frame' none st'
| loaded
    {frame' : Frame α}
    {st' : RenderState α}
    (hKind : frame.kind = .resources)
    (hSame : frame'.outline = frame.outline)
    (hState : st.SameOuter st') :
    Started limit frame st frame' none st'
| bare
    {frame' child : Frame α}
    {st' : RenderState α}
    (hSame : frame'.outline = frame.outline)
    (hBears : child.kind ∈ frame.kind.bears)
    (hBare : child.outline = .bare child.kind)
    (hKind :
      child.kind ∈
        [.brush, .gradient, .image, .geometry, .matrix, .dictionary])
    (hState : R frame.kind.turnsEarly st st') :
    Started limit frame st frame' (some child) st'
| drawing
    {frame' child : Frame α}
    {st' : RenderState α}
    (hSame : frame'.outline = frame.outline)
    (hBears : child.kind ∈ frame.kind.bears)
    (hOpened : child.Opened R st st') :
    Started limit frame st frame' (some child) st'
| visual
    (v : VisualBrush α)
    (hKind : frame.kind = .brush)
    (hDepth : st.visualDepth < limit) :
    Started limit frame st frame (some (.content ⟨some v, 0⟩))
      { st with
        surface := v.openGroup st.surface
        visualDepth := st.visualDepth + 1 }
| resources
    {frame' : Frame α}
    (hBears : .resources ∈ frame.kind.bears)
    (hOutline :
      frame'.outline =
        { frame.outline with
          dictionaries := frame.outline.dictionaries + 1 }) :
    Started limit frame st frame' (some (.resources false))
      { st with scope := st.scope.push }

/-
  The outcome of an element of content: it is passed over, it is
  opened, or it fails without a trace.
-/
def ContentOutcome
    (st : RenderState α) :
    Except Error (Option (Frame α)) × RenderState α → Prop
| (.ok none, st') => st' = st
| (.ok (some child), st') => child.Opened R st st'
| (.error _, st') => R false st st'

/- An element that fails to start leaves the frame as it was. -/
def Frame.Refused
    (frame : Frame α)
    (st st' : RenderState α) : Prop :=
  R frame.kind.turnsEarly st st' ∨
    frame.kind = .resources ∧ st.SameOuter st'

/- The outcome of an element that starts inside a frame. -/
def Frame.Outcome
    (limit : Nat)
    (frame : Frame α)
    (st : RenderState α) :
    Except Error (Frame α × Option (Frame α)) × RenderState α → Prop
| (.ok (frame', child?), st') =>
    frame.Started R limit st frame' child? st'
| (.error _, st') => frame.Refused R st st'

end

------------------------------------------------------------
-- Elements that draw
------------------------------------------------------------

section

variable [Scalar α]
variable {R : Bool → RenderState α → RenderState α → Prop}
variable [Steady R] (env : Environment α) {lookup : BrushLookup α}

/- A save that is undone after a failure is steady. -/
theorem Steady.saved
    {t : Bool}
    {st st' : RenderState α}
    (hInner : R true (st.draw Surface.save) st') :
    R t st (st'.draw Surface.restore) :=
  Steady.bracket t .save hInner

/- A canvas that starts is opened, unless it fails. -/
theorem CanvasFrame.begin_opened
    (hLookup : ∀ key, (lookup key).Keeps (R true))
    (e : Element)
    (st : RenderState α) :
    match (CanvasFrame.begin env lookup e).perform st with
    | (.ok f, st') => (Frame.canvas f).Opened R st st'
    | (.error _, st') => R false st st' := by
  have hRead :=
    CanvasStyle.read_keeps env hLookup e (st.draw Surface.save)
  unfold CanvasFrame.begin
  rw [Action.perform_bind_ok (Action.perform_draw _ _),
    Action.perform_bind, Action.perform_onError]
  generalize (CanvasStyle.read env lookup e).perform
    (st.draw Surface.save) = outcome at hRead ⊢
  rcases outcome with ⟨result, read⟩
  cases result with
  | error fault => exact Steady.saved hRead
  | ok style => exact ⟨rfl, rfl, rfl, read, hRead, rfl⟩

/- A path that starts is opened, unless it fails. -/
theorem PathFrame.begin_opened
    (hLookup : ∀ key, (lookup key).Keeps (R true))
    (e : Element)
    (st : RenderState α) :
    match (PathFrame.begin env lookup e).perform st with
    | (.ok f, st') => (Frame.path f).Opened R st st'
    | (.error _, st') => R false st st' := by
  have hRead :=
    Action.Keeps.foldlM
      (fun state a =>
        PathState.takeAttribute_keeps env hLookup e state a
          fun _ => rfl)
      .initial e.attributes (st.draw Surface.save)
  unfold PathFrame.begin
  dsimp only
  rw [Action.perform_bind_ok (Action.perform_draw _ _),
    Action.perform_bind, Action.perform_onError]
  generalize
    Action.perform
      (e.attributes.foldlM (PathState.takeAttribute env lookup e)
        .initial)
      (st.draw Surface.save) = outcome at hRead ⊢
  rcases outcome with ⟨result, read⟩
  cases result with
  | error fault => exact Steady.saved hRead
  | ok state => exact ⟨rfl, rfl, rfl, read, hRead, rfl⟩

/- A glyph run that starts is opened, unless it fails. -/
theorem GlyphsFrame.begin_opened
    (hLookup : ∀ key, (lookup key).Keeps (R true))
    (e : Element)
    (st : RenderState α) :
    match (GlyphsFrame.begin env lookup e).perform st with
    | (.ok f, st') => (Frame.glyphs f).Opened R st st'
    | (.error _, st') => R false st st' := by
  unfold GlyphsFrame.begin
  dsimp only
  rw [Action.perform_bind, Action.perform_ofExcept]
  cases GlyphRun.read env e with
  | error fault => exact Steady.refl false st
  | ok run =>
      have hRead :=
        Action.Keeps.foldlM
          (fun run a =>
            GlyphRun.takeAttribute_keeps env hLookup e run a
              fun _ => rfl)
          run e.attributes (st.draw Surface.save)
      dsimp only
      rw [Action.perform_bind_ok (Action.perform_draw _ _),
        Action.perform_bind, Action.perform_onError]
      generalize
        Action.perform
          (e.attributes.foldlM
            (GlyphRun.takeAttribute env lookup e) run)
          (st.draw Surface.save) = outcome at hRead ⊢
      rcases outcome with ⟨result, read⟩
      cases result with
      | error fault => exact Steady.saved hRead
      | ok run => exact ⟨rfl, rfl, rfl, read, hRead, rfl⟩

/- How an element of content starts. -/
theorem startContent_outcome
    (hLookup : ∀ key, (lookup key).Keeps (R true))
    (e : Element)
    (st : RenderState α) :
    ContentOutcome R st
      ((startContent env lookup e).perform st) := by
  unfold startContent
  split
  · have hBegin := CanvasFrame.begin_opened env hLookup e st
    rw [Action.perform_bind]
    generalize (CanvasFrame.begin env lookup e).perform st = outcome
      at hBegin ⊢
    rcases outcome with ⟨fault | f, st'⟩ <;> exact hBegin
  · have hBegin := PathFrame.begin_opened env hLookup e st
    rw [Action.perform_bind]
    generalize (PathFrame.begin env lookup e).perform st = outcome
      at hBegin ⊢
    rcases outcome with ⟨fault | f, st'⟩ <;> exact hBegin
  · have hBegin := GlyphsFrame.begin_opened env hLookup e st
    rw [Action.perform_bind]
    generalize (GlyphsFrame.begin env lookup e).perform st = outcome
      at hBegin ⊢
    rcases outcome with ⟨fault | f, st'⟩ <;> exact hBegin
  · split
    · exact Steady.refl false st
    · rfl

------------------------------------------------------------
-- Frames
------------------------------------------------------------

/- A frame that draws may lie on a page, a visual or a canvas. -/
theorem mem_bears_of_draws
    {child parent : FrameKind}
    (hChild : child.draws = true)
    (hParent : parent ∈ [.page, .visual, .canvas]) :
    child ∈ parent.bears := by
  cases child <;> cases hChild <;>
    cases parent <;> revert hParent <;> decide

/- How an element of content starts inside a frame. -/
theorem startContent_started
    (hLookup : ∀ key, (lookup key).Keeps (R true))
    (e : Element)
    (frame : Frame α)
    (hKind : frame.kind ∈ [.page, .visual, .canvas])
    (st : RenderState α) :
    frame.Outcome R env.options.maxVisualDepth st
      (Action.perform
        (do
          let child? ← startContent env lookup e
          pure (frame, child?))
        st) := by
  have hContent := startContent_outcome env hLookup e st
  rw [Action.perform_bind]
  generalize (startContent env lookup e).perform st = outcome
    at hContent ⊢
  rcases outcome with ⟨fault | child?, st'⟩
  · exact .inl (Steady.weaken hContent)
  · cases child? with
    | none =>
        cases hContent
        exact .steady rfl (Steady.refl _ st)
    | some child =>
        exact .drawing rfl
          (mem_bears_of_draws hContent.draws hKind) hContent

/- How an element starts on a page or inside a visual brush. -/
theorem ContentFrame.startChild_started
    (hLookup : ∀ key, (lookup key).Keeps (R true))
    (e : Element)
    (f : ContentFrame α)
    (st : RenderState α) :
    (Frame.content f).Outcome R env.options.maxVisualDepth st
      (Action.perform
        (do
          let (f, child?) ← f.startChild env lookup e
          pure (.content f, child?))
        st) := by
  have hKind : (Frame.content f).kind ∈ [.page, .visual, .canvas] := by
    unfold Frame.kind Frame.outline
    dsimp only
    split <;> decide
  have hContent :=
    startContent_started env hLookup e
      (.content f) hKind st
  unfold ContentFrame.startChild
  split
  · exact .steady rfl (Steady.refl _ st)
  · refine .resources ?_ rfl
    revert hKind
    cases (Frame.content f).kind <;> decide
  · split
    · exact .steady rfl (Steady.refl _ st)
    · simpa only [bind_assoc, pure_bind] using hContent
  · split
    · rename_i hVisual
      exact
        .bare rfl
          (by simp [Frame.kind_content, FrameKind.bears, hVisual])
          rfl (by simp) (Steady.refl _ st)
    · simpa only [bind_assoc, pure_bind] using hContent
  · simpa only [bind_assoc, pure_bind] using hContent

/- How an element starts inside a canvas. -/
theorem CanvasFrame.startChild_started
    (hLookup : ∀ key, (lookup key).Keeps (R true))
    (e : Element)
    (f : CanvasFrame α)
    (st : RenderState α) :
    (Frame.canvas f).Outcome R env.options.maxVisualDepth st
      (Action.perform
        (do
          let (f, child?) ← f.startChild env lookup e
          pure (.canvas f, child?))
        st) := by
  unfold CanvasFrame.startChild
  split
  · exact
      .bare rfl (by simp [FrameKind.bears]) rfl (by simp)
        (Steady.refl _ st)
  · exact
      .bare rfl (by simp [FrameKind.bears]) rfl (by simp)
        (Steady.refl _ st)
  · exact .resources (by simp [FrameKind.bears]) rfl
  · simpa only [bind_assoc, pure_bind] using
      startContent_started env hLookup e (.canvas f)
        (by simp) st

/- The attributes of a geometry leave the outline of its path. -/
theorem PathFrame.foldGeometryAttributes_outline
    (e : Element)
    (as : List Attribute)
    (f f' : PathFrame α)
    (st st' : RenderState α)
    (hOk :
      Action.perform
        (as.foldlM (takeGeometryAttribute env e) f) st =
          (.ok f', st')) :
    (Frame.path f').outline = (Frame.path f).outline := by
  induction as generalizing f st with
  | nil =>
      cases hOk
      rfl
  | cons a as ih =>
      rw [List.foldlM_cons, Action.perform_bind] at hOk
      cases hFirst :
        (takeGeometryAttribute env e f a).perform st with
      | mk result st₁ =>
          rw [hFirst] at hOk
          cases result with
          | error fault => cases hOk
          | ok f₁ =>
              rw [ih f₁ st₁ hOk]
              unfold takeGeometryAttribute at hFirst
              split at hFirst
              · cases hFirst
                rfl
              · rw [Action.perform_bind] at hFirst
                split at hFirst <;> cases hFirst
                rfl
              · cases hFirst
                rfl

/- How the geometry of a path starts. -/
theorem PathFrame.startGeometry_started
    {limit : Nat}
    (e : Element)
    (f : PathFrame α)
    (st : RenderState α) :
    (Frame.path f).Outcome R limit st
      (Action.perform
        (do
          let (f, child?) ← f.startGeometry env e
          pure (.path f, child?))
        st) := by
  have hFold :=
    Action.Keeps.foldlM
      (takeGeometryAttribute_keeps (R := R) env e) f
      e.attributes st
  have hOutline :=
    foldGeometryAttributes_outline env e e.attributes f
  unfold startGeometry
  simp only [bind_assoc]
  rw [Action.perform_bind]
  cases hRead :
    Action.perform
      (e.attributes.foldlM (takeGeometryAttribute env e) f)
      st with
  | mk result read =>
      rw [hRead] at hFold
      cases result with
      | error fault => exact .inl hFold
      | ok f' =>
          have hSame := hOutline f' st read hRead
          dsimp only
          split
          · exact .steady hSame hFold
          · have hClip :=
              clipToAny_keeps (R := R) f'.state.clip?
                (read.draw
                  (Surface.record (.setFillRule f'.state.fillRule)))
            have hRule :=
              Steady.trans hFold
                (Steady.record (R := R) read
                  (.setFillRule f'.state.fillRule) rfl)
            rw [bind_assoc,
              Action.perform_bind_ok (Action.perform_draw _ _),
              bind_assoc, Action.perform_bind]
            generalize
              (clipToAny f'.state.clip? : Action α Unit).perform _ =
                outcome at hClip ⊢
            rcases outcome with ⟨fault | u, st'⟩
            · exact .inl (Steady.trans hRule hClip)
            · exact
                .bare hSame (by simp [FrameKind.bears]) rfl
                  (by simp) (Steady.trans hRule hClip)

/- How an element starts inside a path. -/
theorem PathFrame.startChild_started
    {limit : Nat}
    (e : Element)
    (f : PathFrame α)
    (st : RenderState α) :
    (Frame.path f).Outcome R limit st
      (Action.perform
        (do
          let (f, child?) ← f.startChild env e
          pure (.path f, child?))
        st) := by
  unfold startChild
  split
  · exact
      .bare rfl (by simp [FrameKind.bears]) rfl (by simp)
        (Steady.refl _ st)
  · exact
      .bare rfl (by simp [FrameKind.bears]) rfl (by simp)
        (Steady.refl _ st)
  · exact
      .bare rfl (by simp [FrameKind.bears]) rfl (by simp)
        (Steady.refl _ st)
  · exact
      .bare rfl (by simp [FrameKind.bears]) rfl (by simp)
        (Steady.refl _ st)
  · exact .steady rfl (Steady.refl _ st)
  · split
    · refine .steady ?_ (Steady.refl _ st)
      unfold takeClip
      split <;> rfl
    · exact startGeometry_started env e f st
  · exact .steady rfl (Steady.refl _ st)

/- How an element starts inside a geometry. -/
theorem GeometryFrame.startChild_started
    {limit : Nat}
    (e : Element)
    (f : GeometryFrame α)
    (st : RenderState α) :
    (Frame.geometry f).Outcome R limit st
      (Action.perform
        (do
          let (f, child?) ← Action.ofExcept (f.startChild e)
          pure (.geometry f, child?))
        st) := by
  unfold startChild
  split
  · exact
      .bare rfl (by simp [FrameKind.bears]) rfl (by simp)
        (Steady.refl _ st)
  · cases f.startFigure e with
    | error fault => exact .inl (Steady.refl _ st)
    | ok f' => exact .steady rfl (Steady.refl _ st)
  · cases f.addSegment e with
    | error fault => exact .inl (Steady.refl _ st)
    | ok f' => exact .steady rfl (Steady.refl _ st)
  · cases f.addSegment e with
    | error fault => exact .inl (Steady.refl _ st)
    | ok f' => exact .steady rfl (Steady.refl _ st)
  · cases f.addSegment e with
    | error fault => exact .inl (Steady.refl _ st)
    | ok f' => exact .steady rfl (Steady.refl _ st)
  · exact .steady rfl (Steady.refl _ st)

omit [Steady R] in
/- How the element of a brush that has a frame of its own starts. -/
theorem startBrush_bare
    {β : Type}
    {limit : Nat}
    {x : Action α β}
    (hKeeps : x.Keeps (R false))
    (pattern? : Option (Pattern α))
    (child : β → Frame α)
    (hBears : ∀ b, (child b).kind ∈ FrameKind.brush.bears)
    (hBare : ∀ b, (child b).outline = .bare (child b).kind)
    (hKind : ∀ b, (child b).kind ∈ [.gradient, .image])
    (st : RenderState α) :
    (Frame.brush pattern?).Outcome R limit st
      (Action.perform
        (do
          let b ← x
          pure (.brush pattern?, some (child b)))
        st) := by
  have hState := hKeeps st
  rw [Action.perform_bind]
  generalize x.perform st = outcome at hState ⊢
  rcases outcome with ⟨fault | b, st'⟩
  · exact .inl hState
  · refine .bare rfl (hBears b) (hBare b) ?_ hState
    have hEither := hKind b
    simp only [List.mem_cons, List.not_mem_nil, or_false] at hEither
    rcases hEither with hGradient | hImage
    · simp [hGradient]
    · simp [hImage]

/-
  A visual brush that begins has been read without a trace, and
  its group has been opened.
-/
theorem VisualBrush.begin_ok
    {e : Element}
    {v : VisualBrush α}
    {st st' : RenderState α}
    (hBegun : (VisualBrush.begin env e).perform st = (.ok v, st')) :
    (VisualBrush.read env e).perform st = (.ok v, st) ∧
      st' =
        { st with
          surface := v.openGroup st.surface
          visualDepth := st.visualDepth + 1 } := by
  have hRead := VisualBrush.read_keeps env e st
  unfold VisualBrush.begin checkDepth at hBegun
  rw [Action.perform_bind, Action.perform_ofEffect] at hBegun
  by_cases hDepth : st.visualDepth < env.options.maxVisualDepth
  · rw [if_pos hDepth] at hBegun
    dsimp only at hBegun
    rw [Action.perform_bind] at hBegun
    rcases hRun : (VisualBrush.read env e).perform st with
      ⟨fault | v', read⟩
    · rw [hRun] at hBegun
      cases hBegun
    · rw [hRun] at hRead hBegun
      obtain rfl : read = st := hRead.symm
      cases hBegun
      exact ⟨rfl, rfl⟩
  · rw [if_neg hDepth] at hBegun
    cases hBegun

/- How a visual brush starts. -/
theorem VisualBrush.begin_started
    (pattern? : Option (Pattern α))
    (e : Element)
    (st : RenderState α) :
    (Frame.brush pattern?).Outcome R env.options.maxVisualDepth st
      (Action.perform
        (do
          let v ← VisualBrush.begin env e
          pure (.brush pattern?, some (.content ⟨some v, 0⟩)))
        st) := by
  have hRead := VisualBrush.read_keeps env e st
  unfold VisualBrush.begin checkDepth
  simp only [bind_assoc]
  rw [Action.perform_bind, Action.perform_ofEffect]
  split
  · rename_i hCheck
    split at hCheck <;> cases hCheck
    rename_i hDepth
    rw [Action.perform_bind]
    generalize (VisualBrush.read env e).perform st = outcome
      at hRead ⊢
    rcases outcome with ⟨fault | v, st'⟩
    · cases hRead
      exact .inl (Steady.refl _ _)
    · cases hRead
      exact .visual v (Frame.kind_brush pattern?) hDepth
  · rename_i hCheck
    split at hCheck <;> cases hCheck
    exact .inl (Steady.refl _ st)

/- How the element of a brush starts. -/
theorem startBrush_started
    (pattern? : Option (Pattern α))
    (e : Element)
    (st : RenderState α) :
    (Frame.brush pattern?).Outcome R env.options.maxVisualDepth st
      (Action.perform
        (do
          let (pattern?, child?) ← startBrush env pattern? e
          pure (.brush pattern?, child?))
        st) := by
  unfold startBrush
  split
  · have hState := SolidBrush.read_keeps (R := R) (t := false) env e st
    simp only [bind_assoc, pure_bind]
    rw [Action.perform_bind]
    generalize (SolidBrush.read env e).perform st = outcome
      at hState ⊢
    rcases outcome with ⟨fault | b, st'⟩
    · exact .inl hState
    · exact .steady rfl hState
  · simp only [bind_assoc, pure_bind]
    exact
      startBrush_bare
        (Action.Keeps.steady (GradientBrush.read_keeps env _ _ e))
        pattern? .gradient (by simp [FrameKind.bears])
        (fun _ => rfl) (by simp) st
  · simp only [bind_assoc, pure_bind]
    exact
      startBrush_bare
        (Action.Keeps.steady (GradientBrush.read_keeps env _ _ e))
        pattern? .gradient (by simp [FrameKind.bears])
        (fun _ => rfl) (by simp) st
  · simp only [bind_assoc, pure_bind]
    exact
      startBrush_bare
        (Action.Keeps.steady (ImageBrush.read_keeps env e))
        pattern? .image (by simp [FrameKind.bears])
        (fun _ => rfl) (by simp) st
  · simp only [bind_assoc, pure_bind]
    exact VisualBrush.begin_started env pattern? e st
  · exact .inl (Steady.refl _ st)

/- How an element starts inside a gradient. -/
theorem GradientBrush.startChild_started
    {limit : Nat}
    (e : Element)
    (g : GradientBrush α)
    (st : RenderState α) :
    (Frame.gradient g).Outcome R limit st
      (Action.perform
        (do
          let (g, child?) ← g.startChild env e
          pure (.gradient g, child?))
        st) := by
  unfold startChild
  split
  · exact .steady rfl (Steady.refl _ st)
  · exact .steady rfl (Steady.refl _ st)
  · exact
      .bare rfl (by simp [FrameKind.bears]) rfl (by simp)
        (Steady.refl _ st)
  · exact
      .bare rfl (by simp [FrameKind.bears]) rfl (by simp)
        (Steady.refl _ st)
  · have hState := readStop_keeps (R := R) (t := false) env e st
    simp only [bind_assoc, pure_bind]
    rw [Action.perform_bind]
    generalize (readStop env e).perform st = outcome at hState ⊢
    rcases outcome with ⟨fault | b, st'⟩
    · exact .inl hState
    · exact .steady rfl hState
  · exact .inl (Steady.refl _ st)

/- How an element starts inside the owner of dictionaries. -/
theorem startResources_started
    {limit : Nat}
    (remote : Bool)
    (e : Element)
    (st : RenderState α) :
    (Frame.resources remote).Outcome R limit st
      (Action.perform
        (do
          let (remote, child?) ← startResources env remote e
          pure (.resources remote, child?))
        st) := by
  unfold startResources
  split
  · exact .inl (Steady.refl _ st)
  · split
    · rename_i source hSource
      have hState := loadDictionary_keeps env source st
      simp only [bind_assoc, pure_bind]
      rw [Action.perform_bind]
      generalize (loadDictionary env source).perform st = outcome
        at hState ⊢
      rcases outcome with ⟨fault | u, st'⟩
      · exact .inr ⟨rfl, hState⟩
      · exact .loaded rfl rfl hState
    · exact
        .bare rfl (by simp [FrameKind.bears]) rfl (by simp)
          (Steady.refl _ st)

/- How an element starts inside a glyph run. -/
theorem GlyphsFrame.startChild_started
    {limit : Nat}
    (e : Element)
    (f : GlyphsFrame α)
    (st : RenderState α) :
    (Frame.glyphs f).Started R limit st (.glyphs f)
      (startChild e) st := by
  unfold startChild
  split
  · exact
      .bare rfl (by simp [FrameKind.bears]) rfl (by simp)
        (Steady.refl _ st)
  · exact
      .bare rfl (by simp [FrameKind.bears]) rfl (by simp)
        (Steady.refl _ st)
  · exact
      .bare rfl (by simp [FrameKind.bears]) rfl (by simp)
        (Steady.refl _ st)
  · exact .steady rfl (Steady.refl _ st)

/- How an element starts inside any frame. -/
theorem startElement_started
    (hLookup : ∀ key, (lookup key).Keeps (R true))
    (e : Element)
    (frame : Frame α)
    (st : RenderState α) :
    frame.Outcome R env.options.maxVisualDepth st
      ((startElement env lookup frame e).perform st) := by
  unfold startElement
  cases frame with
  | content f => exact f.startChild_started env hLookup e st
  | canvas f => exact f.startChild_started env hLookup e st
  | path f => exact f.startChild_started env e st
  | geometry f => exact f.startChild_started e st
  | brush pattern? => exact startBrush_started env pattern? e st
  | gradient g => exact g.startChild_started env e st
  | image i =>
      dsimp only
      unfold ImageBrush.startChild
      split
      · exact
          .bare rfl (by simp [FrameKind.bears]) rfl (by simp)
            (Steady.refl _ st)
      · exact .inl (Steady.refl _ st)
  | glyphs f => exact f.startChild_started e st
  | resources remote => exact startResources_started env remote e st
  | matrix m =>
      unfold startStored
      dsimp only
      rw [Action.perform_bind, Action.perform_ofExcept]
      cases startMatrix e m with
      | error fault => exact .inl (Steady.refl _ st)
      | ok m' => exact .steady rfl (Steady.refl _ st)
  | dictionary current? =>
      unfold startStored
      dsimp only
      rw [Action.perform_bind, Action.perform_ofExcept]
      cases startEntry e current? with
      | error fault => exact .inl (Steady.refl _ st)
      | ok next? => exact .steady rfl (Steady.refl _ st)

end

end FixedPage
