import FixedPage.Proofs.Render.Balance
import FixedPage.Proofs.Render.Drawn
import FixedPage.Proofs.Render.Geometries
import FixedPage.Proofs.Surface.Marks
import Mathlib.Data.List.Forall2

/-
  This file says which marks an element leaves on the surface
  when it starts, when a geometry starts inside of it and when a
  child inside of it ends. Whatever else the start of an element
  draws, such as the brushes it refers to, is enclosed.

  Main declarations:
    * `TurnsBy`
    * `Frame.Begun`
    * `startElement_begun`
    * `PathFrame.geometryMarks`
    * `Frame.marks`
-/

namespace FixedPage

open Markup

variable {α : Type} [Scalar α]

------------------------------------------------------------
-- Turns
------------------------------------------------------------

/-
  The attributes with a name give some matrices, in order. A
  matrix may be stored under a key.
-/
def TurnsBy
    (env : Environment α)
    (e : Element)
    (name : String)
    (as : List Attribute)
    (turns : List (Matrix α)) : Prop :=
  List.Forall₂
    (fun a m =>
      ∃ st, (transformValue env e a.name a.value).perform st =
        (.ok m, st))
    (as.filter (·.name == name)) turns

/- Turns what is drawn by the matrix that an attribute gives. -/
def turnBy
    {β : Type}
    (env : Environment α)
    (e : Element)
    (a : Attribute)
    (b : β) : Action α β := do
  let m ← transformValue env e a.name a.value
  Action.draw (Surface.transform m)
  pure b

section

variable {env : Environment α} {e : Element}

/-
  Attributes are read one after another. Those with a name turn
  what is drawn; what the others draw is enclosed.
-/
theorem foldlM_traced
    {β : Type}
    {name : String}
    {take : β → Attribute → Action α β}
    (hTurn : ∀ b a, a.name = name → take b a = turnBy env e a b)
    (hOther :
      ∀ b a, a.name ≠ name → (take b a).Keeps (OnLevel false))
    {as : List Attribute}
    {b b' : β}
    {st st' : RenderState α}
    (hOk : Action.perform (as.foldlM take b) st = (.ok b', st')) :
    ∃ turns,
      TurnsBy env e name as turns ∧
        st.surface.Traced (turns.map .turn) st'.surface := by
  induction as generalizing b st with
  | nil =>
      cases hOk
      exact ⟨[], .nil, .refl⟩
  | cons a rest ih =>
      rw [List.foldlM_cons, Action.perform_bind] at hOk
      rcases hFirst : (take b a).perform st with ⟨fault | b₁, st₁⟩
      · rw [hFirst] at hOk
        cases hOk
      rw [hFirst] at hOk
      rcases ih hOk with ⟨turns, hTurns, hTraced⟩
      by_cases hName : a.name = name
      · rw [hTurn b a hName, turnBy, Action.perform_bind] at hFirst
        have hSame := transformValue_keeps env e a.name a.value st
        rcases hValue :
            (transformValue env e a.name a.value).perform st with
          ⟨fault | m, mid⟩
        · rw [hValue] at hFirst
          cases hFirst
        · rw [hValue] at hFirst hSame
          cases hSame
          cases hFirst
          refine ⟨m :: turns, ?_, ?_⟩
          · unfold TurnsBy
            rw [List.filter_cons_of_pos (by simpa using hName)]
            exact .cons ⟨_, hValue⟩ hTurns
          · exact (Surface.Traced.single (.turn m) _).trans hTraced
      · have hLevel := hOther b a hName st
        rw [hFirst] at hLevel
        refine ⟨turns, ?_, (Surface.Traced.of_level hLevel).trans hTraced⟩
        unfold TurnsBy
        rwa [List.filter_cons_of_neg (by simpa using hName)]

end

------------------------------------------------------------
-- Elements that draw
------------------------------------------------------------

omit [Scalar α] in
/- The marks of the groups of a frame, the outer one first. -/
def FrameOutline.marks
    (o : FrameOutline) : List (Mark α) :=
  (if o.inOpacity then [.group] else [])
    ++ (if o.inMask then [.group] else [])

/- Opening the groups of an element leaves their marks. -/
theorem openGroups_traced
    (o : FrameOutline)
    (s : Surface α) :
    s.Traced o.marks (openGroups o s) := by
  unfold openGroups FrameOutline.marks
  cases o.inOpacity <;> cases o.inMask
  · exact .refl
  · exact .single .group s
  · exact .single .group s
  · exact (Surface.Traced.single .group s).trans (.single .group _)

/-
  The marks that an element leaves when it starts: it turns what
  is drawn, a canvas narrows the clip, and groups are opened.
-/
def startMarks
    (turns : List (Matrix α))
    (clip? : Option String)
    (o : FrameOutline) : List (Mark α) :=
  turns.map .turn ++ clip?.toList.map .clip ++ o.marks

/-
  An element that draws has started: after its save it has left
  marks. Only a canvas narrows the clip so early.
-/
structure Frame.Begun
    (env : Environment α)
    (e : Element)
    (frame : Frame α)
    (turns : List (Matrix α))
    (clip? : Option String)
    (st st' : RenderState α) : Prop where
  given : TurnsBy env e "RenderTransform" e.attributes turns
  canvas : clip?.isSome = true → frame.kind = .canvas
  traced :
    st.surface.save.Traced (startMarks turns clip? frame.outline)
      st'.surface

section

variable {env : Environment α} {e : Element}
variable {st st' : RenderState α}

/- What looking up a brush draws is enclosed. -/
theorem pageBrush_onLevel
    (env : Environment α)
    (key : String) :
    Action.Keeps (OnLevel false) (pageBrush env key) :=
  storedBrush_onLevel env _ key

/- The attributes of a canvas turn what is drawn. -/
theorem CanvasStyle.read_traced
    {style style' : CanvasStyle α}
    (hRead :
      Action.perform
        (e.attributes.foldlM
          (CanvasStyle.takeAttribute env (pageBrush env) e) style) st =
        (.ok style', st')) :
    ∃ turns,
      TurnsBy env e "RenderTransform" e.attributes turns ∧
        st.surface.Traced (turns.map .turn) st'.surface := by
  have hTurn :
      ∀ (style : CanvasStyle α) (a : Attribute),
        a.name = "RenderTransform" →
          CanvasStyle.takeAttribute env (pageBrush env) e style a =
            turnBy env e a style := by
    intro style a hName
    simp only [CanvasStyle.takeAttribute, turnBy, hName]
  exact
    foldlM_traced hTurn
      (fun style a hName =>
        CanvasStyle.takeAttribute_keeps env (pageBrush_onLevel env) e
          style a fun hIs => absurd hIs hName)
      hRead

/- A canvas that has started. -/
theorem CanvasFrame.begun
    {f : CanvasFrame α}
    (hOk :
      (CanvasFrame.begin env (pageBrush env) e).perform st =
        (.ok f, st')) :
    ∃ turns clip?, (Frame.canvas f).Begun env e turns clip? st st' := by
  unfold CanvasFrame.begin at hOk
  rw [Action.perform_bind_ok (Action.perform_draw _ _),
    Action.perform_bind, Action.perform_onError] at hOk
  unfold CanvasStyle.read at hOk
  dsimp only at hOk
  rw [Action.perform_bind] at hOk
  rcases hRead :
      Action.perform
        (e.attributes.foldlM
          (CanvasStyle.takeAttribute env (pageBrush env) e)
          ⟨none, 1, none⟩)
        (st.draw Surface.save) with
    ⟨fault | style, read⟩
  · rw [hRead] at hOk
    cases hOk
  rw [hRead] at hOk
  dsimp only at hOk
  rw [Action.perform_bind] at hOk
  rcases clipToAny_perform style.clip? read with ⟨fault | u, hClip⟩
  · rw [hClip] at hOk
    cases hOk
  rw [hClip] at hOk
  cases hOk
  rcases CanvasStyle.read_traced hRead with
    ⟨turns, hTurns, hTraced⟩
  have hClipped :
      read.surface.Traced (style.clip?.toList.map .clip)
        (read.surface.clipToAny style.clip?) := by
    cases style.clip? with
    | none => exact .refl
    | some data => exact .single (.clip data) read.surface
  refine ⟨turns, style.clip?, hTurns, fun _ => rfl, ?_⟩
  exact (hTraced.trans hClipped).trans (openGroups_traced _ _)

/- A path that has started. -/
theorem PathFrame.begun
    {f : PathFrame α}
    (hOk :
      (PathFrame.begin env (pageBrush env) e).perform st =
        (.ok f, st')) :
    ∃ turns, (Frame.path f).Begun env e turns none st st' := by
  unfold PathFrame.begin at hOk
  dsimp only at hOk
  rw [Action.perform_bind_ok (Action.perform_draw _ _),
    Action.perform_bind, Action.perform_onError] at hOk
  rcases hRead :
      Action.perform
        (e.attributes.foldlM
          (PathState.takeAttribute env (pageBrush env) e) .initial)
        (st.draw Surface.save) with
    ⟨fault | state, read⟩
  · rw [hRead] at hOk
    cases hOk
  rw [hRead] at hOk
  cases hOk
  have hTurn :
      ∀ (state : PathState α) (a : Attribute),
        a.name = "RenderTransform" →
          PathState.takeAttribute env (pageBrush env) e state a =
            turnBy env e a state := by
    intro state a hName
    simp only [PathState.takeAttribute, turnBy, hName]
  rcases
    foldlM_traced hTurn
      (fun state a hName =>
        PathState.takeAttribute_keeps env (pageBrush_onLevel env) e
          state a fun hIs => absurd hIs hName)
      hRead with
    ⟨turns, hTurns, hTraced⟩
  refine ⟨turns, hTurns, nofun, ?_⟩
  rw [startMarks, Option.toList_none, List.map_nil, List.append_nil]
  exact hTraced.trans (openGroups_traced _ _)

/- A glyph run that has started. -/
theorem GlyphsFrame.begun
    {f : GlyphsFrame α}
    (hOk :
      (GlyphsFrame.begin env (pageBrush env) e).perform st =
        (.ok f, st')) :
    ∃ turns, (Frame.glyphs f).Begun env e turns none st st' := by
  unfold GlyphsFrame.begin at hOk
  dsimp only at hOk
  rw [Action.perform_bind, Action.perform_ofExcept] at hOk
  rcases hRun : GlyphRun.read env e with fault | run
  · rw [hRun] at hOk
    cases hOk
  rw [hRun] at hOk
  dsimp only at hOk
  rw [Action.perform_bind_ok (Action.perform_draw _ _),
    Action.perform_bind, Action.perform_onError] at hOk
  rcases hRead :
      Action.perform
        (e.attributes.foldlM
          (GlyphRun.takeAttribute env (pageBrush env) e) run)
        (st.draw Surface.save) with
    ⟨fault | run, read⟩
  · rw [hRead] at hOk
    cases hOk
  rw [hRead] at hOk
  cases hOk
  have hTurn :
      ∀ (run : GlyphRun α) (a : Attribute),
        a.name = "RenderTransform" →
          GlyphRun.takeAttribute env (pageBrush env) e run a =
            turnBy env e a run := by
    intro run a hName
    simp only [GlyphRun.takeAttribute, turnBy, hName]
  rcases
    foldlM_traced hTurn
      (fun run a hName =>
        GlyphRun.takeAttribute_keeps env (pageBrush_onLevel env) e
          run a fun hIs => absurd hIs hName)
      hRead with
    ⟨turns, hTurns, hTraced⟩
  refine ⟨turns, hTurns, nofun, ?_⟩
  rw [startMarks, Option.toList_none, List.map_nil, List.append_nil]
  exact hTraced.trans (openGroups_traced _ _)

/- An element that draws is one of the elements of content. -/
def DrawsAs
    (e : Element)
    (child? : Option (Frame α)) : Prop :=
  ∀ child, child? = some child → child.kind.draws = true →
    e.name ∈ ["Canvas", "Path", "Glyphs"]

theorem startContent_drawsAs
    (e : Element) :
    (startContent env (pageBrush env) e).Gives (DrawsAs e) := by
  unfold startContent
  split
  · rename_i hName
    exact .bind (.any _) fun _ _ => .pure fun _ _ _ => by simp [hName]
  · rename_i hName
    exact .bind (.any _) fun _ _ => .pure fun _ _ _ => by simp [hName]
  · rename_i hName
    exact .bind (.any _) fun _ _ => .pure fun _ _ _ => by simp [hName]
  · split
    · exact .fail _
    · exact .pure fun _ hIs => by cases hIs

/- An element of content that has started. -/
theorem startContent_begun
    {child : Frame α}
    (hOk :
      (startContent env (pageBrush env) e).perform st =
        (.ok (some child), st')) :
    ∃ turns clip?, child.Begun env e turns clip? st st' := by
  unfold startContent at hOk
  split at hOk
  · rw [Action.perform_bind] at hOk
    rcases hBegin :
        (CanvasFrame.begin env (pageBrush env) e).perform st with
      ⟨fault | f, read⟩
    · rw [hBegin] at hOk
      cases hOk
    · rw [hBegin] at hOk
      cases hOk
      exact CanvasFrame.begun hBegin
  · rw [Action.perform_bind] at hOk
    rcases hBegin :
        (PathFrame.begin env (pageBrush env) e).perform st with
      ⟨fault | f, read⟩
    · rw [hBegin] at hOk
      cases hOk
    · rw [hBegin] at hOk
      cases hOk
      rcases PathFrame.begun hBegin with ⟨turns, hBegun⟩
      exact ⟨turns, none, hBegun⟩
  · rw [Action.perform_bind] at hOk
    rcases hBegin :
        (GlyphsFrame.begin env (pageBrush env) e).perform st with
      ⟨fault | f, read⟩
    · rw [hBegin] at hOk
      cases hOk
    · rw [hBegin] at hOk
      cases hOk
      rcases GlyphsFrame.begun hBegin with ⟨turns, hBegun⟩
      exact ⟨turns, none, hBegun⟩
  · split at hOk <;> cases hOk

/- An element that draws has started, wherever it stands. -/
theorem startElement_begun
    {top frame child : Frame α}
    (hOk :
      (startElement env (pageBrush env) top e).perform st =
        (.ok (frame, some child), st'))
    (hDraws : child.kind.draws = true) :
    ∃ turns clip?, child.Begun env e turns clip? st st' := by
  have hName : e.name ∈ ["Canvas", "Path", "Glyphs"] := by
    have hGives :
        (startElement env (pageBrush env) top e).Gives
          fun started => DrawsAs e started.2 := by
      refine startElement_gives (startContent_drawsAs e) ?_ top
      intro child? hNone child hIs hDraws
      rw [hNone child hIs] at hDraws
      cases hDraws
    exact hGives _ st st' hOk child rfl hDraws
  have hTop : top.kind ∈ [.page, .visual, .canvas] := by
    have hBears := (startElement_kinds hOk).2 child rfl
    revert hBears hDraws
    cases child.kind <;> cases top.kind <;> decide
  rw [startElement_content hTop hName, Action.perform_bind] at hOk
  rcases hContent :
      (startContent env (pageBrush env) e).perform st with
    ⟨fault | child?, read⟩
  · rw [hContent] at hOk
    cases hOk
  · rw [hContent] at hOk
    cases hOk
    exact startContent_begun hContent

end

------------------------------------------------------------
-- Geometries
------------------------------------------------------------

/-
  The marks that a geometry leaves when it starts inside a path.
  If it is made of figures, the clip has to be in place before
  them, under the rule of the geometry.
-/
def PathFrame.geometryMarks
    (f : PathFrame α)
    (e : Element)
    (turns : List (Matrix α)) : List (Mark α) :=
  turns.map .turn ++
    match lastValue? e "Figures" with
    | some _ => []
    | none =>
        .rule ((geometryRule? e).getD f.state.fillRule)
          :: f.state.clip?.toList.map .clip

section

variable {env : Environment α} {e : Element}
variable {st st' : RenderState α}

/- The attributes of a geometry leave the clip of its path. -/
theorem PathFrame.readGeometry_clip?
    (f : PathFrame α)
    (e : Element) :
    (e.attributes.foldlM (takeGeometryAttribute env e) f).Gives
      fun f' => f'.state.clip? = f.state.clip? := by
  have hStep :
      ∀ (f₁ : PathFrame α) (a : Attribute),
        f₁.state.clip? = f.state.clip? →
          (takeGeometryAttribute env e f₁ a).Gives
            fun f' => f'.state.clip? = f.state.clip? := by
    intro f₁ a hClip
    unfold takeGeometryAttribute
    split
    · exact .pure hClip
    · exact
        .bind (.any _) fun _ _ => .bind (.any _) fun _ _ =>
          .pure hClip
    · exact .pure hClip
  exact .foldlM hStep rfl e.attributes

/- The attributes of a geometry turn what is drawn. -/
theorem PathFrame.readGeometry_traced
    {f f' : PathFrame α}
    (hOk :
      Action.perform
        (e.attributes.foldlM (takeGeometryAttribute env e) f) st =
          (.ok f', st')) :
    ∃ turns,
      TurnsBy env e "Transform" e.attributes turns ∧
        st.surface.Traced (turns.map .turn) st'.surface := by
  have hTurn :
      ∀ (f : PathFrame α) (a : Attribute),
        a.name = "Transform" →
          takeGeometryAttribute env e f a = turnBy env e a f := by
    intro f a hName
    simp only [takeGeometryAttribute, turnBy, hName]
  refine foldlM_traced hTurn (fun f a hName => ?_) hOk
  unfold takeGeometryAttribute
  split
  · exact .pure _
  · exact absurd ‹_› hName
  · exact .pure _

/- A geometry that starts inside a path leaves its marks. -/
theorem PathFrame.startGeometry_traced
    {f f' : PathFrame α}
    {child? : Option (Frame α)}
    (hOk : (f.startGeometry env e).perform st = (.ok (f', child?), st')) :
    (∀ child, child? = some child → ∃ g, child = .geometry g) ∧
      ∃ turns,
        TurnsBy env e "Transform" e.attributes turns ∧
          st.surface.Traced (f.geometryMarks e turns) st'.surface := by
  unfold startGeometry at hOk
  rw [Action.perform_bind] at hOk
  rcases hRead :
      Action.perform
        (e.attributes.foldlM (takeGeometryAttribute env e) f) st with
    ⟨fault | f₁, read⟩
  · rw [hRead] at hOk
    cases hOk
  rw [hRead] at hOk
  rcases readGeometry_traced hRead with ⟨turns, hTurns, hTraced⟩
  have hRule :
      f₁.state.fillRule = (geometryRule? e).getD f.state.fillRule :=
    readGeometry_gives f e f₁ st read hRead
  have hClip : f₁.state.clip? = f.state.clip? :=
    readGeometry_clip? f e f₁ st read hRead
  unfold geometryMarks
  dsimp only at hOk
  cases hFigures : lastValue? e "Figures" with
  | some figures =>
      rw [hFigures] at hOk
      cases hOk
      refine ⟨by simp, turns, hTurns, ?_⟩
      dsimp only
      rw [List.append_nil]
      exact hTraced
  | none =>
      rw [hFigures] at hOk
      dsimp only at hOk
      rw [Action.perform_bind_ok (Action.perform_draw _ _),
        Action.perform_bind] at hOk
      rcases
        clipToAny_perform f₁.state.clip?
          (read.draw (Surface.record (.setFillRule f₁.state.fillRule)))
        with ⟨fault | u, hClipped⟩
      · rw [hClipped] at hOk
        cases hOk
      rw [hClipped] at hOk
      cases hOk
      refine ⟨fun child hIs => ⟨_, (Option.some.inj hIs).symm⟩, turns,
        hTurns, hTraced.trans ?_⟩
      rw [← hRule, ← hClip]
      have hRuled :=
        Surface.Traced.single (.rule f₁.state.fillRule) read.surface
      cases hData : f₁.state.clip? with
      | none => exact hRuled
      | some data => exact hRuled.trans (.single (.clip data) _)

/- Other elements inside a path draw nothing when they start. -/
theorem PathFrame.startChild_keeps
    (f : PathFrame α)
    (e : Element)
    (hOther : ¬ f.Takes e) :
    Action.Keeps Eq (f.startChild env e) := by
  unfold startChild
  split
  · exact .pure _
  · exact .pure _
  · exact .pure _
  · exact .pure _
  · exact .pure _
  · rename_i hName
    split
    · exact .pure _
    · rename_i hClip
      exact absurd ⟨hName, by simpa using hClip⟩ hOther
  · exact .pure _

end

------------------------------------------------------------
-- Children
------------------------------------------------------------

/- The mark of an element that opens the group of its mask. -/
def maskMarks
    (known? : Option (Pattern α))
    (product : Product α) : List (Mark α) :=
  match takeMask known? product with
  | some _ => [.group]
  | none => []

/- The marks that a canvas leaves when a child ends. -/
def CanvasFrame.marks
    (f : CanvasFrame α)
    (name : String)
    (product : Product α) : List (Mark α) :=
  match name, product with
  | "Canvas.RenderTransform", .matrix m => [.turn m]
  | "Canvas.OpacityMask", product => maskMarks f.mask? product
  | _, _ => []

/- The marks that a path leaves when a child ends. -/
def PathFrame.marks
    (name : String)
    (product : Product α) : List (Mark α) :=
  match name, product with
  | "Path.RenderTransform", .matrix m => [.turn m]
  | _, _ => []

/- The marks that a geometry leaves when a child ends. -/
def GeometryFrame.marks
    (g : GeometryFrame α)
    (name : String)
    (product : Product α) : List (Mark α) :=
  match name, product with
  | "PathGeometry.Transform", .matrix m => [.turn m]
  | "PathFigure", _ => [.figure g]
  | _, _ => []

/- The marks that a glyph run leaves when a child ends. -/
def GlyphsFrame.marks
    (f : GlyphsFrame α)
    (name : String)
    (product : Product α) : List (Mark α) :=
  match name, product with
  | "Glyphs.RenderTransform", .matrix m => [.turn m]
  | "Glyphs.OpacityMask", product => maskMarks f.run.mask? product
  | _, _ => []

/- The marks that a frame leaves when a child ends. -/
def Frame.marks
    (frame : Frame α)
    (name : String)
    (product : Product α) : List (Mark α) :=
  match frame with
  | .canvas f => f.marks name product
  | .path _ => PathFrame.marks name product
  | .geometry g => g.marks name product
  | .glyphs f => f.marks name product
  | _ => []

omit [Scalar α] in
/- Only a geometry leaves the mark of a figure. -/
theorem Frame.kind_of_figure
    {frame : Frame α}
    {name : String}
    {product : Product α}
    {g : GeometryFrame α}
    (hFigure : .figure g ∈ frame.marks name product) :
    frame.kind = .geometry := by
  have hMask :
      ∀ known? : Option (Pattern α),
        .figure g ∉ maskMarks known? product := by
    intro known? hMem
    unfold maskMarks at hMem
    split at hMem <;> simp at hMem
  cases frame with
  | geometry _ => rfl
  | canvas f =>
      change .figure g ∈ f.marks name product at hFigure
      unfold CanvasFrame.marks at hFigure
      split at hFigure
      · simp at hFigure
      · exact absurd hFigure (hMask _)
      · cases hFigure
  | path _ =>
      change .figure g ∈ PathFrame.marks name product at hFigure
      unfold PathFrame.marks at hFigure
      split at hFigure <;> simp at hFigure
  | glyphs f =>
      change .figure g ∈ f.marks name product at hFigure
      unfold GlyphsFrame.marks at hFigure
      split at hFigure
      · simp at hFigure
      · exact absurd hFigure (hMask _)
      · cases hFigure
  | _ => cases hFigure

/- The kinds of frames that leave marks. -/
def FrameKind.marks : FrameKind → Bool
| canvas => true
| path => true
| glyphs => true
| geometry => true
| _ => false

section

variable (env : Environment α)

/-
  When a child ends, a frame enters the group of its mask only
  with the mark of a group.
-/
theorem Frame.endChild_inMask
    (frame : Frame α)
    (hMarks : frame.kind.marks = true)
    (name : String)
    (product : Product α)
    (st : RenderState α)
    (hMask :
      (frame.endChild env name product st).1.outline.inMask = true) :
    frame.outline.inMask = true ∨ .group ∈ frame.marks name product := by
  cases frame with
  | canvas f =>
      change (f.endChild name product st).1.maskGroup = true at hMask
      change f.maskGroup = true ∨ .group ∈ f.marks name product
      unfold CanvasFrame.endChild at hMask
      split at hMask
      · exact .inl hMask
      · unfold CanvasFrame.marks maskMarks
        cases hTaken : takeMask f.mask? product with
        | none =>
            rw [hTaken] at hMask
            exact .inl hMask
        | some mask => exact .inr (by simp [hTaken])
      · exact .inl hMask
  | glyphs f =>
      change (f.endChild name product st).1.maskGroup = true at hMask
      change f.maskGroup = true ∨ .group ∈ f.marks name product
      unfold GlyphsFrame.endChild at hMask
      split at hMask
      · exact .inl hMask
      · exact .inl hMask
      · unfold GlyphsFrame.marks maskMarks
        cases hTaken : takeMask f.run.mask? product with
        | none =>
            rw [hTaken] at hMask
            exact .inl hMask
        | some mask => exact .inr (by simp [hTaken])
      · exact .inl hMask
  | path f => cases hMask
  | geometry g => cases hMask
  | content f =>
      rw [kind_content] at hMarks
      split at hMarks <;> cases hMarks
  | _ => cases hMarks

/- A child that ends inside of an element leaves marks. -/
theorem Frame.endChild_traced
    (frame : Frame α)
    (hMarks : frame.kind.marks = true)
    (name : String)
    (product : Product α)
    (st : RenderState α) :
    st.surface.Traced (frame.marks name product)
      (frame.endChild env name product st).2.surface := by
  cases frame with
  | canvas f =>
      change st.surface.Traced (f.marks name product)
        (f.endChild name product st).2.surface
      unfold CanvasFrame.endChild
      split
      · exact .single (.turn _) st.surface
      · change st.surface.Traced (maskMarks f.mask? product) _
        unfold maskMarks
        cases takeMask f.mask? product with
        | none => exact .refl
        | some mask => exact .single .group st.surface
      · simp only [CanvasFrame.marks]
        exact .refl
  | path f =>
      change st.surface.Traced (PathFrame.marks name product)
        (f.endChild name product st).2.surface
      unfold PathFrame.endChild
      split
      · exact .refl
      · exact .refl
      · split <;> exact .refl
      · exact .single (.turn _) st.surface
      · exact .refl
      · rename_i product
        cases product <;> exact .refl
      · simp only [PathFrame.marks]
        exact .refl
  | glyphs f =>
      change st.surface.Traced (f.marks name product)
        (f.endChild name product st).2.surface
      unfold GlyphsFrame.endChild
      split
      · exact .single (.turn _) st.surface
      · exact .refl
      · change st.surface.Traced (maskMarks f.run.mask? product) _
        unfold maskMarks
        cases takeMask f.run.mask? product with
        | none => exact .refl
        | some mask => exact .single .group st.surface
      · simp only [GlyphsFrame.marks]
        exact .refl
  | geometry g =>
      change st.surface.Traced (g.marks name product)
        (g.endChild name product st).2.surface
      unfold GeometryFrame.endChild
      split
      · exact .single (.turn _) st.surface
      · exact .single (.figure g) st.surface
      · simp only [GeometryFrame.marks]
        exact .refl
  | content f =>
      rw [kind_content] at hMarks
      split at hMarks <;> cases hMarks
  | _ => cases hMarks

end

end FixedPage
