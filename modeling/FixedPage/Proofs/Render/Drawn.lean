import FixedPage.Proofs.Render.Drawing

/-
  This file proves that whatever changes on the surface of a
  page while it is rendered is routine drawing or a piece of work
  that a run under way has called for. A brush that is read while
  an element starts is drawn by a run of its own, whose brushes
  are asked for with more visual brushes under way.

  Main declarations:
    * `Action.KeepsAt`
    * `startElement_draws`
    * `endElement_draws`
    * `pageBrush_draws`
    * `renderItems_drawing`
-/

namespace FixedPage

open Markup

variable {α : Type}

------------------------------------------------------------
-- Actions in one state
------------------------------------------------------------

namespace Action

variable {β γ : Type} {R : RenderState α → RenderState α → Prop}

/- An action that starts in a given state keeps a relation. -/
def KeepsAt
    (R : RenderState α → RenderState α → Prop)
    (st : RenderState α)
    (x : Action α β) : Prop :=
  R st (x.perform st).2

namespace KeepsAt

variable {st : RenderState α}

/- What leaves the state alone keeps every reflexive relation. -/
theorem of_eq
    [Std.Refl R]
    {x : Action α β}
    (hKeeps : Keeps Eq x) :
    KeepsAt R st x :=
  Keeps.of_eq hKeeps st

theorem pure
    [Std.Refl R]
    (b : β) :
    KeepsAt R st (Pure.pure b : Action α β) :=
  Keeps.pure b st

theorem bind
    [IsTrans (RenderState α) R]
    {x : Action α β}
    {f : β → Action α γ}
    (hFirst : KeepsAt R st x)
    (hNext :
      ∀ b st', x.perform st = (.ok b, st') → KeepsAt R st' (f b)) :
    KeepsAt R st (x >>= f) := by
  unfold KeepsAt at hFirst ⊢
  rw [perform_bind]
  rcases hResult : x.perform st with ⟨fault | b, st'⟩
  · rwa [hResult] at hFirst
  · rw [hResult] at hFirst
    exact IsTrans.trans _ _ _ hFirst (hNext b st' hResult)

/- A result that is used without further actions. -/
theorem thenPure
    [Std.Refl R]
    [IsTrans (RenderState α) R]
    {x : Action α β}
    (f : β → γ)
    (hKeeps : KeepsAt R st x) :
    KeepsAt R st (x >>= fun b => Pure.pure (f b)) :=
  hKeeps.bind fun _ _ _ => pure _

/- The undoing step keeps the relation, too. -/
theorem onError
    [IsTrans (RenderState α) R]
    {x : Action α β}
    {undo : RenderState α → RenderState α}
    (hKeeps : KeepsAt R st x)
    (hUndo : ∀ st', R st' (undo st')) :
    KeepsAt R st (x.onError undo) := by
  unfold KeepsAt at hKeeps ⊢
  rw [perform_onError]
  generalize x.perform st = outcome at hKeeps ⊢
  rcases outcome with ⟨fault | b, st'⟩
  · exact IsTrans.trans _ _ _ hKeeps (hUndo st')
  · exact hKeeps

/- A fold keeps what each of its steps keeps where it is taken. -/
theorem foldlM
    [Std.Refl R]
    [IsTrans (RenderState α) R]
    {take : β → Attribute → Action α β}
    (init : β)
    (as : List Attribute)
    (hStep :
      ∀ b a st', TakesNext take init as st b a st' →
        KeepsAt R st' (take b a)) :
    KeepsAt R st (as.foldlM take init) := by
  induction as generalizing init st with
  | nil => exact pure init
  | cons a as ih =>
      rw [List.foldlM_cons]
      refine bind (hStep init a st ⟨[], as, rfl, rfl⟩) ?_
      intro b₁ st₁ hTaken
      apply ih
      rintro b a' st' ⟨before, after, rfl, hBefore⟩
      refine hStep b a' st' ⟨a :: before, after, rfl, ?_⟩
      rw [List.foldlM_cons, perform_bind_ok hTaken]
      exact hBefore

end KeepsAt

end Action

------------------------------------------------------------
-- Values
------------------------------------------------------------

section

variable [Scalar α]

/- The surface is the same in both states. -/
def SameSurface
    (st st' : RenderState α) : Prop :=
  st'.surface = st.surface

omit [Scalar α] in
instance : Std.Refl (SameSurface (α := α)) where
  refl _ := rfl

omit [Scalar α] in
instance : IsTrans (RenderState α) SameSurface where
  trans _ _ _ hFirst hNext := hNext.trans hFirst

/- A color leaves the surface. -/
theorem colorValue_sameSurface
    (env : Environment α)
    (e : Element)
    (name value : String) :
    Action.Keeps SameSurface (colorValue env e name value) := by
  intro st
  rcases colorValue_perform env e name value st with
    ⟨profiles, hState⟩
  rw [hState]
  rfl

/- A brush of one color leaves the surface. -/
theorem SolidBrush.read_sameSurface
    (env : Environment α)
    (e : Element) :
    Action.Keeps SameSurface (SolidBrush.read env e) := by
  unfold SolidBrush.read
  refine .bind (.foldlM (fun b a => ?_) _ _) fun _ =>
    .bind (.ofExcept _) fun _ => .pure _
  unfold SolidBrush.takeAttribute
  split
  · exact .bind (colorValue_sameSurface env e _ _) fun _ => .pure _
  · exact .bind (.ofExcept _) fun _ => .pure _
  · split
    · exact .pure _
    · exact .fail _

/- A stop of a gradient leaves the surface. -/
theorem GradientBrush.readStop_sameSurface
    (env : Environment α)
    (e : Element) :
    Action.Keeps SameSurface (GradientBrush.readStop env e) := by
  have hStop :
      Action.Keeps SameSurface
        (do
          let color ← Action.ofExcept (e.required "Color")
          let offset ←
            Action.ofExcept (e.readRequired "Offset" Value.number?)
          let color? ← colorValue env e "Color" color
          pure (color?.map fun color => GradientStop.mk offset color)) :=
    .bind (.ofExcept _) fun _ =>
      .bind (.ofExcept _) fun _ =>
        .bind (colorValue_sameSurface env e _ _) fun _ => .pure _
  unfold GradientBrush.readStop
  dsimp only
  split
  · exact .bind (.fail _) fun _ => hStop
  · exact hStop

/- A dictionary of its own part leaves the surface. -/
theorem loadDictionary_sameSurface
    (env : Environment α)
    (source : String) :
    Action.Keeps SameSurface (loadDictionary env source) := by
  intro st
  rcases loadDictionary_keeps env source st with ⟨scope, -, hState⟩
  rw [hState]
  rfl

/- A clip narrows the clip, up to its fault. -/
theorem clipTo_perform
    (data : String)
    (st : RenderState α) :
    ∃ result,
      (clipTo data).perform st =
        (result, st.draw (Surface.clipTo data)) := by
  unfold clipTo
  rw [Action.perform_bind_ok (Action.perform_draw _ _)]
  unfold drawData Surface.drawData Surface.clipTo
  rw [Action.perform_bind, Action.perform_ofEffect]
  dsimp only [RenderState.draw]
  cases (PathData.trace (α := α) data).fault? with
  | none => exact ⟨_, rfl⟩
  | some fault => exact ⟨_, rfl⟩

/- What narrowing the clip does to the state. -/
theorem clipToAny_perform
    (data? : Option String)
    (st : RenderState α) :
    ∃ result,
      (clipToAny data?).perform st =
        (result, st.draw (Surface.clipToAny data?)) := by
  cases data? with
  | none => exact ⟨_, rfl⟩
  | some data => exact clipTo_perform data st

end

------------------------------------------------------------
-- Drawing
------------------------------------------------------------

section

variable [Scalar α]
variable {env : Environment α} {first : Run α}
variable {st₀ st : RenderState α}

/- Routine drawing is drawing. -/
theorem DrawsOn.draw
    {f : Surface α → Surface α}
    (hRoutines : ∀ s : Surface α, s.Routines (f s))
    (st : RenderState α) :
    DrawsOn env first st₀ st (st.draw f) :=
  Drawing.routines (hRoutines st.surface)

/- Nothing is drawn while the surface stays the same. -/
theorem DrawsOn.of_sameSurface
    {st st' : RenderState α}
    (hSame : SameSurface st st') :
    DrawsOn env first st₀ st st' := by
  unfold DrawsOn
  rw [hSame]
  exact .refl

namespace Action.KeepsAt

variable {β : Type}

/- Nothing is drawn while the surface stays the same. -/
theorem of_sameSurface
    {x : Action α β}
    (hKeeps : Keeps SameSurface x) :
    KeepsAt (DrawsOn env first st₀) st x :=
  DrawsOn.of_sameSurface (hKeeps st)

/- Routine drawing. -/
theorem draw
    {f : Surface α → Surface α}
    (hRoutines : ∀ s : Surface α, s.Routines (f s)) :
    KeepsAt (DrawsOn env first st₀) st (Action.draw f) :=
  DrawsOn.draw hRoutines st

/- A transformation that is read and applied. -/
theorem transformWith
    (e : Element)
    (name value : String)
    (b : β) :
    KeepsAt (DrawsOn env first st₀) st
      (do
        let matrix ← transformValue env e name value
        Action.draw (Surface.transform matrix)
        Pure.pure b) :=
  .bind (.of_eq (transformValue_keeps env e name value))
    fun m _ _ => .bind (.draw fun _ => .single (.transform m))
      fun _ _ _ => .pure b

/- A value that is read without the state. -/
theorem readPure
    {γ : Type}
    (x : Except Error β)
    (f : β → γ) :
    KeepsAt (DrawsOn env first st₀) st
      (Action.ofExcept x >>= fun b => Pure.pure (f b)) :=
  .thenPure f (.of_eq (.ofExcept x))

end Action.KeepsAt

------------------------------------------------------------
-- Attributes
------------------------------------------------------------

section

variable {lookup : BrushLookup α}

/- A brush is drawn when the one that it refers to is. -/
theorem brushValue_draws
    (e : Element)
    (name value : String)
    (hAsked :
      ∀ key, Value.resourceKey? value = some key →
        (lookup key).KeepsAt (DrawsOn env first st₀) st) :
    (brushValue env lookup e name value).KeepsAt
      (DrawsOn env first st₀) st := by
  unfold brushValue
  cases hKey : Value.resourceKey? value with
  | none =>
      exact .thenPure _
        (.of_sameSurface (colorValue_sameSurface env e name value))
  | some key => exact hAsked key hKey

/- An attribute of a canvas draws what its brush draws. -/
theorem CanvasStyle.takeAttribute_draws
    (e : Element)
    (style : CanvasStyle α)
    (a : Attribute)
    (hAsked :
      a.name ∈ brushAttributes "Canvas" →
        ∀ key, Value.resourceKey? a.value = some key →
          (lookup key).KeepsAt (DrawsOn env first st₀) st) :
    (CanvasStyle.takeAttribute env lookup e style a).KeepsAt
      (DrawsOn env first st₀) st := by
  unfold CanvasStyle.takeAttribute
  split
  · exact .transformWith e _ _ _
  · exact .thenPure _ (.of_eq (geometryValue_keeps env _))
  · exact .readPure _ _
  · rename_i hName
    refine .thenPure _ (brushValue_draws e _ _ ?_)
    exact hAsked (by simp [hName, brushAttributes])
  · exact .pure _

/- An attribute of a path draws what its brush draws. -/
theorem PathState.takeAttribute_draws
    (e : Element)
    (state : PathState α)
    (a : Attribute)
    (hAsked :
      a.name ∈ brushAttributes "Path" →
        ∀ key, Value.resourceKey? a.value = some key →
          (lookup key).KeepsAt (DrawsOn env first st₀) st) :
    (PathState.takeAttribute env lookup e state a).KeepsAt
      (DrawsOn env first st₀) st := by
  have hBrush :
      ∀ {name : String} (f : Option (Pattern α) → PathState α),
        a.name = name → name ∈ brushAttributes "Path" →
          (brushValue env lookup e name a.value >>=
            fun pattern? => pure (f pattern?)).KeepsAt
              (DrawsOn env first st₀) st := by
    intro name f hName hMem
    exact .thenPure f
      (brushValue_draws e _ _ (hAsked (hName ▸ hMem)))
  unfold PathState.takeAttribute
  split
  · exact .thenPure _ (.of_eq (geometryValue_keeps env _))
  · exact .thenPure _ (.of_eq (geometryValue_keeps env _))
  · exact .transformWith e _ _ _
  · rename_i hName
    rw [hName]
    exact hBrush _ hName (by simp [brushAttributes])
  · rename_i hName
    rw [hName]
    exact hBrush _ hName (by simp [brushAttributes])
  · rename_i hName
    rw [hName]
    exact hBrush _ hName (by simp [brushAttributes])
  · exact .readPure _ _
  · split
    · exact .pure _
    · exact .readPure _ _

/- An attribute of a glyph run draws what its brush draws. -/
theorem GlyphRun.takeAttribute_draws
    (e : Element)
    (run : GlyphRun α)
    (a : Attribute)
    (hAsked :
      a.name ∈ brushAttributes "Glyphs" →
        ∀ key, Value.resourceKey? a.value = some key →
          (lookup key).KeepsAt (DrawsOn env first st₀) st) :
    (GlyphRun.takeAttribute env lookup e run a).KeepsAt
      (DrawsOn env first st₀) st := by
  unfold GlyphRun.takeAttribute
  split
  · exact .pure _
  · exact .pure _
  · rename_i hName
    refine .thenPure _ (brushValue_draws e _ _ ?_)
    exact hAsked (by simp [hName, brushAttributes])
  · rename_i hName
    refine .thenPure _ (brushValue_draws e _ _ ?_)
    exact hAsked (by simp [hName, brushAttributes])
  · exact .thenPure _ (.of_eq (geometryValue_keeps env _))
  · exact .transformWith e _ _ _
  · exact .readPure _ _
  · exact .readPure _ _
  · exact .pure _
  · exact .readPure _ _
  · exact .pure _

/- An attribute of the geometry of a path draws no work. -/
theorem PathFrame.takeGeometryAttribute_draws
    (e : Element)
    (f : PathFrame α)
    (a : Attribute) :
    (PathFrame.takeGeometryAttribute env e f a).KeepsAt
      (DrawsOn env first st₀) st := by
  unfold PathFrame.takeGeometryAttribute
  split
  · exact .pure _
  · exact .transformWith e _ _ _
  · exact .pure _

end

------------------------------------------------------------
-- Elements that start
------------------------------------------------------------

/-
  An element starts inside the top frame of a run under way, and
  the brushes that it asks for are drawn.
-/
structure Starts
    (env : Environment α)
    (first : Run α)
    (st₀ : RenderState α)
    (top : Entry α)
    (e : Element)
    (st : RenderState α) : Prop where
  active :
    ∃ below depth rest outer,
      Active env first st₀
        (⟨.page, ⟨top :: below, depth⟩,
          some (.ok (e.place, .startTag e.name e.attributes) :: rest)⟩
            :: outer) st
  asked :
    ∀ key st',
      AsksBrush env (pageBrush env) top.frame e st key st' →
        (pageBrush env key).KeepsAt (DrawsOn env first st₀) st'

namespace Starts

variable {top : Entry α} {e : Element}

/- Work that the start of the element calls for. -/
theorem work
    {f : Surface α → Surface α}
    {now : RenderState α}
    (hStarts : Starts env first st₀ top e st)
    (work : Work α)
    (hWork :
      ∀ below depth,
        work.CalledFor env ⟨top :: below, depth⟩ e.place
          (.startTag e.name e.attributes) st now.surface)
    (hApply : f now.surface = work.apply now.surface) :
    DrawsOn env first st₀ now (now.draw f) := by
  rcases hStarts.active with ⟨below, depth, rest, outer, hActive⟩
  change Drawing env first st₀ now.surface (f now.surface)
  rw [hApply]
  exact .work .refl hActive (hWork below depth)

/- The clip that the start of the element calls for. -/
theorem clipToAny
    {now : RenderState α}
    {data? : Option String}
    (hStarts : Starts env first st₀ top e st)
    (hWork :
      ∀ data, data? = some data →
        ∀ below depth,
          Work.CalledFor env (.clip data) ⟨top :: below, depth⟩
            e.place (.startTag e.name e.attributes) st
            now.surface) :
    (FixedPage.clipToAny data?).KeepsAt (DrawsOn env first st₀)
      now := by
  rcases clipToAny_perform data? now with ⟨result, hClip⟩
  unfold Action.KeepsAt
  rw [hClip]
  cases data? with
  | none => exact Std.Refl.refl now
  | some data => exact hStarts.work _ (hWork data rfl) rfl

end Starts

section

variable {top : Entry α} {e : Element}

/- A canvas that starts. -/
theorem CanvasFrame.begin_draws
    (hStarts : Starts env first st₀ top e st)
    (hFrame : top.frame.kind ∈ [.page, .visual, .canvas])
    (hName : e.name = "Canvas") :
    (CanvasFrame.begin env (pageBrush env) e).KeepsAt
      (DrawsOn env first st₀) st := by
  unfold CanvasFrame.begin
  refine .bind (.draw fun _ => .single .save) fun _ saved hSaved => ?_
  cases hSaved
  refine .bind ?_ fun style _ _ => ?_
  · refine .onError ?_ (DrawsOn.draw fun _ => .single .restore)
    unfold CanvasStyle.read
    refine .bind (.foldlM _ _ ?_) fun style read hRead => ?_
    · intro style a now hNext
      apply CanvasStyle.takeAttribute_draws
      intro hBrush key hKey
      exact
        hStarts.asked key now
          ⟨a, .canvas style hFrame hName hNext, hName ▸ hBrush, hKey⟩
    · refine .thenPure _ (hStarts.clipToAny ?_)
      intro data hClip below depth
      rcases e with ⟨place, name, attributes⟩
      cases hName
      exact .canvasClip hFrame hRead hClip
  · exact .bind (.draw fun s => .openGroups _ _ s) fun _ _ _ => .pure _

/- A path that starts. -/
theorem PathFrame.begin_draws
    (hStarts : Starts env first st₀ top e st)
    (hFrame : top.frame.kind ∈ [.page, .visual, .canvas])
    (hName : e.name = "Path") :
    (PathFrame.begin env (pageBrush env) e).KeepsAt
      (DrawsOn env first st₀) st := by
  unfold PathFrame.begin
  refine .bind (.draw fun _ => .single .save) fun _ saved hSaved => ?_
  cases hSaved
  refine .bind ?_ fun state _ _ => ?_
  · refine .onError ?_ (DrawsOn.draw fun _ => .single .restore)
    refine .foldlM _ _ ?_
    intro state a now hNext
    apply PathState.takeAttribute_draws
    intro hBrush key hKey
    exact
      hStarts.asked key now
        ⟨a, .path state hFrame hName hNext, hName ▸ hBrush, hKey⟩
  · refine .bind (.draw ?_) fun _ _ _ => .pure _
    exact .onlyIf _ fun _ => .single .pushGroup

/- A glyph run that starts. -/
theorem GlyphsFrame.begin_draws
    (hStarts : Starts env first st₀ top e st)
    (hFrame : top.frame.kind ∈ [.page, .visual, .canvas])
    (hName : e.name = "Glyphs") :
    (GlyphsFrame.begin env (pageBrush env) e).KeepsAt
      (DrawsOn env first st₀) st := by
  unfold GlyphsFrame.begin
  refine .bind (.of_eq (.ofExcept _)) fun run read hRead => ?_
  rw [Action.perform_ofExcept, Prod.mk.injEq] at hRead
  rcases hRead with ⟨hRun, rfl⟩
  refine .bind (.draw fun _ => .single .save) fun _ saved hSaved => ?_
  cases hSaved
  refine .bind ?_ fun run _ _ => ?_
  · refine .onError ?_ (DrawsOn.draw fun _ => .single .restore)
    refine .foldlM _ _ ?_
    intro run' a now hNext
    apply GlyphRun.takeAttribute_draws
    intro hBrush key hKey
    exact
      hStarts.asked key now
        ⟨a, .glyphs run run' hFrame hName hRun hNext, hName ▸ hBrush,
          hKey⟩
  · exact .bind (.draw fun s => .openGroups _ _ s) fun _ _ _ => .pure _

/- An element of content that starts. -/
theorem startContent_draws
    (hStarts : Starts env first st₀ top e st)
    (hFrame : top.frame.kind ∈ [.page, .visual, .canvas]) :
    (startContent env (pageBrush env) e).KeepsAt
      (DrawsOn env first st₀) st := by
  unfold startContent
  split
  · rename_i hName
    exact .thenPure _ (CanvasFrame.begin_draws hStarts hFrame hName)
  · rename_i hName
    exact .thenPure _ (PathFrame.begin_draws hStarts hFrame hName)
  · rename_i hName
    exact .thenPure _ (GlyphsFrame.begin_draws hStarts hFrame hName)
  · split
    · exact .of_eq (.fail _)
    · exact .pure _

/- The scope may change without drawing. -/
theorem openResources_draws :
    (openResources : Action α (Frame α)).KeepsAt
      (DrawsOn env first st₀) st :=
  .of_sameSurface (.bind (fun _ => rfl) fun _ => .pure _)

/- An element that starts on a page or inside a visual brush. -/
theorem ContentFrame.startChild_draws
    {f : ContentFrame α}
    (hStarts : Starts env first st₀ top e st)
    (hTop : top.frame = .content f) :
    (f.startChild env (pageBrush env) e).KeepsAt
      (DrawsOn env first st₀) st := by
  have hFrame : top.frame.kind ∈ [.page, .visual, .canvas] := by
    rw [hTop, Frame.kind_content]
    split <;> decide
  have hContent :
      (startContent env (pageBrush env) e >>= fun child? =>
        pure (f, child?)).KeepsAt (DrawsOn env first st₀) st :=
    .thenPure _ (startContent_draws hStarts hFrame)
  unfold ContentFrame.startChild
  split
  · exact .pure _
  · exact .thenPure _ openResources_draws
  · split
    · exact .pure _
    · exact hContent
  · split
    · exact .pure _
    · exact hContent
  · exact hContent

/- An element that starts inside a canvas. -/
theorem CanvasFrame.startChild_draws
    {f : CanvasFrame α}
    (hStarts : Starts env first st₀ top e st)
    (hTop : top.frame = .canvas f) :
    (f.startChild env (pageBrush env) e).KeepsAt
      (DrawsOn env first st₀) st := by
  have hFrame : top.frame.kind ∈ [.page, .visual, .canvas] := by
    simp [hTop]
  unfold CanvasFrame.startChild
  split
  · exact .pure _
  · exact .pure _
  · exact .thenPure _ openResources_draws
  · exact .thenPure _ (startContent_draws hStarts hFrame)

/- The geometry of a path that starts. -/
theorem PathFrame.startGeometry_draws
    {f : PathFrame α}
    (hStarts : Starts env first st₀ top e st)
    (hTop : top.frame = .path f)
    (hName : e.name = "PathGeometry")
    (hClip : f.inClip = false) :
    (f.startGeometry env e).KeepsAt (DrawsOn env first st₀) st := by
  rcases top with ⟨frame, owner⟩
  cases hTop
  unfold startGeometry
  refine .bind (.foldlM _ _ fun f a _ _ =>
    takeGeometryAttribute_draws e f a) fun f' read hRead => ?_
  cases hFigures : lastValue? e "Figures" with
  | some figures => exact .pure _
  | none =>
      have hBegins : f.StartsFigures env e st f' read :=
        ⟨hName, hClip, hRead, hFigures⟩
      refine .bind ?_ fun _ ruled hRuled => ?_
      · exact hStarts.work _ (fun _ _ => .figuresRule hBegins) rfl
      · cases hRuled
        refine .thenPure _ (hStarts.clipToAny ?_)
        intro data hData below depth
        exact .figuresClip hBegins hData

/- An element that starts inside a path. -/
theorem PathFrame.startChild_draws
    {f : PathFrame α}
    (hStarts : Starts env first st₀ top e st)
    (hTop : top.frame = .path f) :
    (f.startChild env e).KeepsAt (DrawsOn env first st₀) st := by
  unfold startChild
  split
  · exact .pure _
  · exact .pure _
  · exact .pure _
  · exact .pure _
  · exact .pure _
  · rename_i hName
    split
    · exact .pure _
    · rename_i hClip
      exact
        startGeometry_draws hStarts hTop hName
          (Bool.not_eq_true _ ▸ hClip)
  · exact .pure _

/- A visual brush that starts. -/
theorem VisualBrush.begin_draws
    (hStarts : Starts env first st₀ top e st)
    (hFrame : top.frame.kind = .brush)
    (hName : e.name = "VisualBrush") :
    (VisualBrush.begin env e).KeepsAt (DrawsOn env first st₀) st := by
  unfold VisualBrush.begin
  refine .bind (.of_eq ?_) fun _ checked hChecked => ?_
  · intro st
    unfold checkDepth
    rw [Action.perform_ofEffect]
    split <;> rfl
  · have hSame : checked = st := by
      unfold checkDepth at hChecked
      rw [Action.perform_ofEffect] at hChecked
      split at hChecked <;> cases hChecked
      rfl
    subst hSame
    refine .bind (.of_eq (VisualBrush.read_keeps env e))
      fun v read hRead => ?_
    have hSame := VisualBrush.read_keeps env e checked
    rw [hRead] at hSame
    cases hSame
    refine .bind ?_ fun _ _ _ => .pure _
    rcases e with ⟨place, name, attributes⟩
    cases hName
    exact hStarts.work (f := v.openGroup) (.tile v)
      (fun _ _ => .tile hFrame hRead) rfl

/- The element of a brush that starts. -/
theorem startBrush_draws
    {pattern? : Option (Pattern α)}
    (hStarts : Starts env first st₀ top e st)
    (hFrame : top.frame.kind = .brush) :
    (startBrush env pattern? e).KeepsAt (DrawsOn env first st₀) st := by
  unfold startBrush
  split
  · exact .thenPure _ (.of_sameSurface (SolidBrush.read_sameSurface env e))
  · exact .thenPure _ (.of_eq (GradientBrush.read_keeps env _ _ e))
  · exact .thenPure _ (.of_eq (GradientBrush.read_keeps env _ _ e))
  · exact .thenPure _ (.of_eq (ImageBrush.read_keeps env e))
  · rename_i hName
    exact .thenPure _ (VisualBrush.begin_draws hStarts hFrame hName)
  · exact .of_eq (.fail _)

/- An element inside a gradient draws nothing. -/
theorem GradientBrush.startChild_sameSurface
    (g : GradientBrush α)
    (e : Element) :
    Action.Keeps SameSurface (g.startChild env e) := by
  unfold startChild
  split
  · exact .pure _
  · exact .pure _
  · exact .pure _
  · exact .pure _
  · exact .bind (readStop_sameSurface env e) fun _ => .pure _
  · exact .fail _

/- An element inside the owner of dictionaries draws nothing. -/
theorem startResources_sameSurface
    (remote : Bool)
    (e : Element) :
    Action.Keeps SameSurface (startResources (α := α) env remote e) := by
  unfold startResources
  split
  · exact .fail _
  · split
    · exact .bind (loadDictionary_sameSurface env _) fun _ => .pure _
    · exact .pure _

/- An element inside a frame that draws nothing. -/
theorem startStored_sameSurface
    (frame : Frame α)
    (e : Element) :
    Action.Keeps SameSurface (startStored frame e) := by
  unfold startStored
  split
  · exact .bind (.ofExcept _) fun _ => .pure _
  · exact .bind (.ofExcept _) fun _ => .pure _
  · exact .fail _

/- An element that starts inside any frame. -/
theorem startElement_draws
    (hStarts : Starts env first st₀ top e st) :
    (startElement env (pageBrush env) top.frame e).KeepsAt
      (DrawsOn env first st₀) st := by
  unfold startElement
  cases hTop : top.frame with
  | content f =>
      exact .thenPure _ (ContentFrame.startChild_draws hStarts hTop)
  | canvas f =>
      exact .thenPure _ (CanvasFrame.startChild_draws hStarts hTop)
  | path f =>
      exact .thenPure _ (PathFrame.startChild_draws hStarts hTop)
  | geometry f => exact .readPure _ _
  | brush pattern? =>
      refine .thenPure _ (startBrush_draws hStarts ?_)
      simp [hTop]
  | gradient g =>
      exact .thenPure _ (.of_sameSurface (g.startChild_sameSurface e))
  | image i => exact .readPure _ _
  | glyphs f => exact .pure _
  | resources remote =>
      exact .thenPure _
        (.of_sameSurface (startResources_sameSurface remote e))
  | matrix m => exact .of_sameSurface (startStored_sameSurface _ e)
  | dictionary current? =>
      exact .of_sameSurface (startStored_sameSurface _ e)

end

------------------------------------------------------------
-- Elements that end
------------------------------------------------------------

/- An element ends in a run under way. -/
def Ends
    (env : Environment α)
    (first : Run α)
    (st₀ : RenderState α)
    (stack : Stack α)
    (name : String)
    (st : RenderState α) : Prop :=
  ∃ place rest outer,
    Active env first st₀
      (⟨.page, stack, some (.ok (place, .endTag name) :: rest)⟩
        :: outer) st

section

variable {stack : Stack α} {name : String}

/- Work that the end of the element calls for. -/
theorem Ends.work
    {f : Surface α → Surface α}
    {now : RenderState α}
    (hEnds : Ends env first st₀ stack name st)
    (work : Work α)
    (hWork :
      ∀ place,
        work.CalledFor env stack place (.endTag name) st now.surface)
    (hApply : f now.surface = work.apply now.surface) :
    DrawsOn env first st₀ now (now.draw f) := by
  rcases hEnds with ⟨place, rest, outer, hActive⟩
  change Drawing env first st₀ now.surface (f now.surface)
  rw [hApply]
  exact .work .refl hActive (hWork place)

/- The clip that the end of the element calls for. -/
theorem Ends.clipToAny
    {now : RenderState α}
    {data? : Option String}
    (hEnds : Ends env first st₀ stack name st)
    (hWork :
      ∀ data, data? = some data →
        ∀ place,
          Work.CalledFor env (.clip data) stack place (.endTag name) st
            now.surface) :
    (FixedPage.clipToAny data?).KeepsAt (DrawsOn env first st₀)
      now := by
  rcases clipToAny_perform data? now with ⟨result, hClip⟩
  unfold Action.KeepsAt
  rw [hClip]
  cases data? with
  | none => exact Std.Refl.refl now
  | some data => exact hEnds.work _ (hWork data rfl) rfl

/- A path that ends. -/
theorem PathFrame.finish_draws
    {f : PathFrame α}
    {depth : Nat}
    {below : List (Entry α)}
    (hEnds :
      Ends env first st₀ ⟨⟨.path f, depth⟩ :: below, depth⟩ name st) :
    f.finish.KeepsAt (DrawsOn env first st₀) st := by
  have hClose :
      ∀ now : RenderState α,
        Action.KeepsAt (DrawsOn env first st₀) now
          (do
            Action.draw fun s =>
              (onlyIf f.opacityGroup (paintGroup f.state.opacity)
                s).restore
            pure (Product.none : Product α)) := by
    intro now
    refine .bind (.draw fun s => ?_) fun _ _ _ => .pure _
    exact .tail (Surface.Routines.onlyIf _ (.paintGroup _) s) .restore
  unfold finish
  cases hData : f.state.data? with
  | none => exact hClose st
  | some data =>
      refine .bind ?_ fun _ now _ => hClose now
      unfold paintData
      refine .bind ?_ fun _ ruled hRuled => ?_
      · exact hEnds.work _ (fun _ => .pathRule hData) rfl
      cases hRuled
      refine .bind ?_ fun _ clipped hClipped => ?_
      · exact hEnds.clipToAny fun clip hClip _ => .pathClip hData hClip
      rcases
        clipToAny_perform f.state.clip?
          (st.draw (Surface.record (.setFillRule f.state.fillRule)))
        with ⟨result, hClip⟩
      rw [hClip, Prod.mk.injEq] at hClipped
      rcases hClipped with ⟨-, rfl⟩
      dsimp only
      cases hFault : (PathData.trace (α := α) data).fault? with
      | some fault => exact .of_eq (.fail _)
      | none =>
          exact hEnds.work _ (fun _ => .path hData hFault) rfl

/- A glyph run that ends. -/
theorem GlyphsFrame.finish_draws
    {f : GlyphsFrame α}
    {depth : Nat}
    {below : List (Entry α)}
    (hEnds :
      Ends env first st₀ ⟨⟨.glyphs f, depth⟩ :: below, depth⟩ name
        st) :
    (f.finish env).KeepsAt (DrawsOn env first st₀) st := by
  have hLoads :
      Action.Keeps SameSurface (f.run.loadFont env) := fun _ => rfl
  unfold finish
  refine .bind (.of_sameSurface hLoads) fun font loaded hFont => ?_
  have hSame := hLoads st
  rw [hFont] at hSame
  change loaded.surface = st.surface at hSame
  refine .bind ?_ fun _ clipped hClipped => ?_
  · refine hEnds.clipToAny fun data hClip place => ?_
    rw [hSame]
    exact .glyphsClip hClip
  rcases clipToAny_perform f.run.clip? loaded with ⟨result, hClip⟩
  rw [hClip, Prod.mk.injEq] at hClipped
  rcases hClipped with ⟨-, rfl⟩
  dsimp only
  split
  · exact .of_eq (.fail _)
  · rename_i layout hLayout
    refine .bind ?_ fun _ _ _ => .pure _
    have hShown :
        DrawsOn env first st₀ (loaded.draw (Surface.clipToAny f.run.clip?))
          ((loaded.draw (Surface.clipToAny f.run.clip?)).draw
            (f.run.show f.run.fontMatrix layout)) := by
      refine
        hEnds.work
          (.glyphs f.run f.run.fontMatrix layout)
          (fun place => ?_) rfl
      change
        Work.CalledFor env _ _ place _ st
          (loaded.surface.clipToAny f.run.clip?)
      rw [hSame]
      exact .glyphs hFont hLayout
    refine Drawing.trans hShown (Drawing.routines ?_)
    exact .tail (Surface.Routines.paintGroups _ _ _ _ _) .restore

/- A frame that is finished. -/
theorem Frame.finish_draws
    {top : Entry α}
    {below : List (Entry α)}
    {depth : Nat}
    (hEnds : Ends env first st₀ ⟨top :: below, depth⟩ name st)
    (hOwner : top.owner = depth) :
    (top.frame.finish env).KeepsAt (DrawsOn env first st₀) st := by
  rcases top with ⟨frame, owner⟩
  cases hOwner
  cases frame with
  | content f =>
      refine .of_sameSurface fun st => ?_
      unfold Frame.finish ContentFrame.finish
      dsimp only
      cases f.visual? <;> rfl
  | canvas f =>
      refine .bind ?_ fun _ _ _ => .pure _
      exact
        Drawing.routines
          (.tail (Surface.Routines.paintGroups _ _ _ _ _) .restore)
  | path f => exact PathFrame.finish_draws hEnds
  | glyphs f => exact GlyphsFrame.finish_draws hEnds
  | _ => exact .pure _

/- A frame that is given up. -/
theorem Frame.abort_draws
    (frame : Frame α)
    (st : RenderState α) :
    DrawsOn env first st₀ st (frame.abort st) := by
  cases frame with
  | content f =>
      unfold Frame.abort ContentFrame.abort
      dsimp only
      cases f.visual? with
      | none => exact Drawing.refl
      | some v =>
          exact Drawing.routines (.tail (.single .closeGroup) .restore)
  | canvas f =>
      exact
        Drawing.routines
          (.tail (Surface.Routines.dropGroups _ _ _) .restore)
  | path f =>
      exact
        Drawing.routines
          (.tail (Surface.Routines.dropGroups _ _ _) .restore)
  | glyphs f =>
      exact
        Drawing.routines
          (.tail (Surface.Routines.dropGroups _ _ _) .restore)
  | _ => exact Drawing.refl

/- The pattern of a brush. -/
theorem endBrush_draws
    (pattern? : Option (Pattern α))
    (product : Product α)
    (st : RenderState α) :
    DrawsOn env first st₀ st (endBrush env pattern? product st).2 := by
  unfold endBrush
  split
  · rename_i b
    cases b with
    | gradient g => exact Drawing.refl
    | image i =>
        unfold Brush.resolve ImageBrush.resolve
        dsimp only
        split
        · exact Drawing.refl
        · split
          · exact Drawing.refl
          · split
            · exact Drawing.refl
            · exact Drawing.routines (.groupWithOpacity _ _ _)
  · rename_i v
    exact Drawing.routines (.resolveVisual v st.surface)
  · exact Drawing.refl

/- A frame that sees the end of a child. -/
theorem Frame.endChild_draws
    (frame : Frame α)
    (name : String)
    (product : Product α)
    (st : RenderState α)
    (hFigure :
      ∀ g, frame = .geometry g → name = "PathFigure" →
        DrawsOn env first st₀ st (st.draw (Work.apply (.figure g)))) :
    DrawsOn env first st₀ st (frame.endChild env name product st).2 := by
  cases frame with
  | content f =>
      unfold Frame.endChild ContentFrame.endChild
      dsimp only
      split <;> exact Drawing.refl
  | canvas f =>
      unfold Frame.endChild CanvasFrame.endChild
      dsimp only
      split
      · exact Drawing.routines (.single (.transform _))
      · split
        · exact Drawing.routines (.single .pushGroup)
        · exact Drawing.refl
      · exact Drawing.refl
  | path f =>
      unfold Frame.endChild PathFrame.endChild
      dsimp only
      split
      · exact Drawing.refl
      · exact Drawing.refl
      · split <;> exact Drawing.refl
      · exact Drawing.routines (.single (.transform _))
      · exact Drawing.refl
      · exact Drawing.refl
      · exact Drawing.refl
  | geometry g =>
      unfold Frame.endChild GeometryFrame.endChild
      dsimp only
      split
      · exact Drawing.routines (.single (.transform _))
      · exact hFigure g rfl rfl
      · exact Drawing.refl
  | brush pattern? => exact endBrush_draws pattern? product st
  | glyphs f =>
      unfold Frame.endChild GlyphsFrame.endChild
      dsimp only
      split
      · exact Drawing.routines (.single (.transform _))
      · exact Drawing.refl
      · split
        · exact Drawing.routines (.single .pushGroup)
        · exact Drawing.refl
      · exact Drawing.refl
  | dictionary current? =>
      rcases endEntry_sameOuter current? name st with ⟨scope, -, hState⟩
      refine DrawsOn.of_sameSurface ?_
      change (endEntry current? name st).2.surface = st.surface
      rw [hState]
  | _ => exact Drawing.refl

end

------------------------------------------------------------
-- Events
------------------------------------------------------------

omit [Scalar α] in
/- Only matrices lie on a geometry. -/
theorem Stack.WellGrown.eq_matrix
    {root : FrameKind}
    {top parent : Entry α}
    {below : List (Entry α)}
    (hGrown : WellGrown root (top :: parent :: below))
    (hParent : parent.frame.kind = .geometry) :
    ∃ m, top.frame = .matrix m := by
  cases hGrown with
  | lie hBears _ =>
      rw [hParent] at hBears
      exact Frame.eq_matrix_of_kind (List.mem_singleton.mp hBears)

/- An element that ends. -/
theorem endElement_draws
    {root : FrameKind}
    {stack : Stack α}
    {place : Location}
    {name : String}
    (hGrown : Stack.WellGrown root stack.entries)
    (hEnds : Ends env first st₀ stack name st) :
    DrawsOn env first st₀ st
      (stack.endElement env place name st).state := by
  rcases stack with ⟨_ | ⟨top, below⟩, depth⟩
  · exact Drawing.refl
  rw [Stack.endElement]
  dsimp only
  by_cases hOwner : top.owner = depth
  · rw [if_neg (by simpa using hOwner)]
    have hFinish := Frame.finish_draws hEnds hOwner
    unfold Action.KeepsAt at hFinish
    rcases hDone : (top.frame.finish env).perform st with
      ⟨fault | product, done⟩
    · rw [hDone] at hFinish
      exact Drawing.trans hFinish (Frame.abort_draws top.frame done)
    · rw [hDone] at hFinish
      cases below with
      | nil => exact hFinish
      | cons parent below =>
          refine Drawing.trans hFinish ?_
          refine parent.frame.endChild_draws name product done ?_
          rintro g hParent rfl
          rcases hGrown.eq_matrix (by rw [hParent]; rfl) with ⟨m, hTop⟩
          rcases top with ⟨frame, owner⟩
          rcases parent with ⟨frame', owner'⟩
          cases hOwner
          cases hTop
          cases hParent
          cases hDone
          exact
            hEnds.work (.figure g) (fun _ => .figure .after) rfl
  · rw [if_pos (by simpa using hOwner)]
    refine top.frame.endChild_draws name .none st ?_
    rintro g hTop rfl
    rcases top with ⟨frame, owner⟩
    cases hTop
    exact
      hEnds.work (.figure g)
        (fun _ => .figure (.inside hOwner)) rfl

/- Frames that are given up. -/
theorem unwind_draws
    (stack : Stack α)
    (st : RenderState α) :
    DrawsOn env first st₀ st (stack.unwind st) := by
  rcases stack with ⟨entries, depth⟩
  unfold Stack.unwind
  dsimp only
  induction entries generalizing st with
  | nil => exact Drawing.refl
  | cons top below ih =>
      exact Drawing.trans (Frame.abort_draws top.frame st) (ih _)

/-
  The brushes that elements of a run ask for are drawn while its
  frames are counted on top of `base` visual brushes.
-/
def BrushesDrawn
    (env : Environment α)
    (first : Run α)
    (st₀ : RenderState α)
    (outer : List (Run α))
    (root : FrameKind)
    (base : Nat) : Prop :=
  ∀ (top : Entry α) (below : List (Entry α)) (depth : Nat)
    (place : Location) (name : String) (attributes : List Attribute)
    (rest : List Item) (st : RenderState α),
    Active env first st₀
        (⟨.page, ⟨top :: below, depth⟩,
          some (.ok (place, .startTag name attributes) :: rest)⟩
            :: outer) st →
      Stack.Counted root env.options.maxVisualDepth base
          (top :: below) st →
        ∀ key st',
          AsksBrush env (pageBrush env) top.frame
              ⟨place, name, attributes⟩ st key st' →
            (pageBrush env key).KeepsAt (DrawsOn env first st₀) st'

section

variable {outer : List (Run α)} {root : FrameKind} {base : Nat}

/- An event of a run under way. -/
theorem feed_draws
    {stack : Stack α}
    {place : Location}
    {event : Event}
    {rest : List Item}
    (hBrushes : BrushesDrawn env first st₀ outer root base)
    (hActive :
      Active env first st₀
        (⟨.page, stack, some (.ok (place, event) :: rest)⟩ :: outer) st)
    (hCounted :
      Stack.Counted root env.options.maxVisualDepth base stack.entries
        st) :
    DrawsOn env first st₀ st
      (stack.feed env (startElement env (pageBrush env)) place st
        event).state := by
  cases event with
  | text content => exact Drawing.refl
  | endTag name =>
      exact endElement_draws hCounted.grown ⟨place, rest, outer, hActive⟩
  | startTag name attributes =>
      rcases stack with ⟨_ | ⟨top, below⟩, depth⟩
      · exact Drawing.refl
      have hStarts :
          Starts env first st₀ top ⟨place, name, attributes⟩ st :=
        ⟨⟨below, depth, rest, outer, hActive⟩,
          hBrushes _ _ _ _ _ _ _ _ hActive hCounted⟩
      have hStart := startElement_draws hStarts
      unfold Action.KeepsAt at hStart
      rw [Stack.feed, Stack.startElement]
      dsimp only
      generalize
        (startElement env (pageBrush env) top.frame
          ⟨place, name, attributes⟩).perform st = outcome at hStart ⊢
      rcases outcome with ⟨fault | ⟨frame, child?⟩, st'⟩ <;>
        exact hStart

/- The events of a fragment. -/
theorem runOpenFragment_draws
    (hBrushes : BrushesDrawn env first st₀ outer root base)
    (items : List Item)
    (stack : Stack α)
    (st : RenderState α)
    (hActive :
      Active env first st₀ (⟨.page, stack, some items⟩ :: outer) st)
    (hCounted :
      Stack.Counted root env.options.maxVisualDepth base stack.entries
        st) :
    DrawsOn env first st₀ st
      (runOpenFragment env (startElement env (pageBrush env)) stack st
        items).2 := by
  induction items generalizing stack st with
  | nil => exact unwind_draws stack st
  | cons item rest ih =>
      cases item with
      | error fault => exact unwind_draws stack st
      | ok item =>
          rcases item with ⟨place, event⟩
          have hDrawn := feed_draws hBrushes hActive hCounted
          have hNext :=
            (countedElement_invariant env (pageBrush_sameDepth env) root
              base).feed place event stack st hCounted
          rw [runOpenFragment]
          rcases hFed :
            stack.feed env (startElement env (pageBrush env)) place st
              event with
            ⟨fault | _ | product, next, st'⟩
          · rw [hFed] at hDrawn
            exact Drawing.trans hDrawn (unwind_draws next st')
          · rw [hFed] at hDrawn hNext
            exact
              Drawing.trans hDrawn
                (ih next st' (.step hActive hFed (.inr rfl)) hNext)
          · rw [hFed] at hDrawn
            exact hDrawn

end

/-
  A stored brush that an element asks for is drawn by a run of
  its own. By induction on the number of visual brushes that may
  still begin, as a brush inside it is asked for with more of
  them under way.
-/
theorem asked_draws
    (left : Nat)
    {top : Entry α}
    {below : List (Entry α)}
    {depth : Nat}
    {place : Location}
    {name key : String}
    {attributes : List Attribute}
    {rest : List Item}
    {outer : List (Run α)}
    {st st' : RenderState α}
    (hActive :
      Active env first st₀
        (⟨.page, ⟨top :: below, depth⟩,
          some (.ok (place, .startTag name attributes) :: rest)⟩
            :: outer) st)
    (hAsks :
      AsksBrush env (pageBrush env) top.frame
        ⟨place, name, attributes⟩ st key st')
    (hLeft : env.options.maxVisualDepth - st'.visualDepth = left) :
    (pageBrush env key).KeepsAt (DrawsOn env first st₀) st' := by
  induction left using Nat.strongRecOn
    generalizing top below depth place name key attributes rest outer
      st st' with
  | ind left ih =>
      have hResource :
          Action.Keeps Eq (Action.resource key : Action α String) := by
        intro now
        unfold Action.resource
        rw [Action.perform_ofEffect]
        cases now.scope.get? key <;> rfl
      rw [pageBrush_eq_readBrush]
      unfold readBrush
      refine .bind (.of_eq hResource) fun markup now hMarkup => ?_
      have hSame := hResource st'
      rw [hMarkup] at hSame
      change st' = now at hSame
      subst hSame
      have hStored : st'.scope.get? key = some markup := by
        unfold Action.resource at hMarkup
        rw [Action.perform_ofEffect] at hMarkup
        cases hGet : st'.scope.get? key with
        | none =>
            rw [hGet] at hMarkup
            cases hMarkup
        | some stored =>
            rw [hGet] at hMarkup
            cases hMarkup
            rfl
      refine .bind ?_ fun product _ _ => ?_
      · unfold runFragment
        refine .bind (.of_eq (.ofExcept _)) fun inner now hInner => ?_
        rw [Action.perform_ofExcept, Prod.mk.injEq] at hInner
        rcases hInner with ⟨hInner, rfl⟩
        refine
          runOpenFragment_draws ?_ inner (.ofOpenElement (.brush none))
            st' (.brush hActive hAsks hStored hInner)
            (.start _ (.brush none) 1 rfl (by simp) st')
        intro top' below' depth' place' name' attributes' rest' now
          hActive' hCounted key' now' hAsks'
        have hDeeper := hAsks'.deeper (pageBrush_sameDepth env) hCounted
        exact ih _ (by omega) hActive' hAsks' rfl
      · cases product <;> exact .pure _

------------------------------------------------------------
-- Rendering
------------------------------------------------------------

/- The brushes that a run under way asks for are drawn. -/
theorem pageBrush_draws
    (outer : List (Run α))
    (root : FrameKind)
    (base : Nat) :
    BrushesDrawn env first st₀ outer root base :=
  fun _ _ _ _ _ _ _ _ hActive _ _ _ hAsks =>
    asked_draws _ hActive hAsks rfl

/- The events of a page. -/
theorem runPart_draws
    {base : Nat}
    (items : List Item)
    (stack : Stack α)
    (st : RenderState α)
    (hActive : Active env first st₀ [⟨.page, stack, some items⟩] st)
    (hCounted :
      Stack.Counted .page env.options.maxVisualDepth base stack.entries
        st) :
    DrawsOn env first st₀ st
      (runPart env (startElement env (pageBrush env)) stack st
        items).2 := by
  induction items generalizing stack st with
  | nil =>
      unfold runPart endPart
      split
      · rename_i root
        have hKind : root.frame.kind = .page := by
          cases hCounted.grown with
          | root hBottom => exact hBottom
        refine DrawsOn.of_sameSurface ?_
        rcases root with ⟨frame, owner⟩
        cases frame with
        | content f =>
            rcases f with ⟨visual?, n⟩
            cases visual? with
            | none => rfl
            | some v => cases hKind
        | _ => cases hKind
      · exact unwind_draws stack st
  | cons item rest ih =>
      cases item with
      | error fault => exact unwind_draws stack st
      | ok item =>
          rcases item with ⟨place, event⟩
          have hDrawn :=
            feed_draws (pageBrush_draws [] .page base) hActive hCounted
          have hNext :=
            (countedElement_invariant env (pageBrush_sameDepth env)
              .page base).feed place event stack st hCounted
          rw [runPart]
          rcases hFed :
            stack.feed env (startElement env (pageBrush env)) place st
              event with
            ⟨fault | product?, next, st'⟩
          · rw [hFed] at hDrawn
            exact Drawing.trans hDrawn (unwind_draws next st')
          · rw [hFed] at hDrawn hNext
            exact
              Drawing.trans hDrawn
                (ih next st' (.step hActive hFed (.inl rfl)) hNext)

/-
  Whatever a page leaves on the surface, it has been put there
  by routine drawing and by work that runs under way have called
  for.
-/
theorem renderItems_drawing
    (env : Environment α)
    (items : List Item)
    (st : RenderState α) :
    Drawing env (.ofPage items) st st.surface
      (renderItems env items st).2.surface :=
  runPart_draws items (.ofPart (.content ⟨none, 0⟩)) st .start
    (.start _ (.content ⟨none, 0⟩) 0 rfl
      (by simp [Frame.kind_content]) st)

end

end FixedPage
