import FixedPage.Proofs.Render.Kind
import FixedPage.Proofs.Render.Run

/-
  This file shows what reading a value does to the state of
  rendering. A stored matrix and a stored geometry are read
  without a trace, a color may load a profile, and a dictionary
  of its own part changes nothing but the dictionaries in scope.

  Reading the attributes of an element is steady: it keeps every
  relation that plain operations, closed brackets and the loading
  of profiles keep, as long as looking up brushes keeps it.

  A relation comes in two strengths. The strong one is kept
  where nothing is drawn but inside of closed brackets, the weak
  one where the element under way may draw and transform what is
  drawn.

  Main declarations:
    * `transformValue_keeps`
    * `geometryValue_keeps`
    * `colorValue_perform`
    * `loadDictionary_keeps`
    * `Steady`
    * `brushValue_keeps`
    * `PathState.takeAttribute_keeps`
    * `CanvasStyle.read_keeps`
    * `GlyphRun.takeAttribute_keeps`
-/

namespace FixedPage

open Markup

variable {α : Type} [Scalar α]

------------------------------------------------------------
-- Fragments
------------------------------------------------------------

/-
  A fragment whose run keeps a relation keeps it as an action,
  since checking its first element changes nothing.
-/
theorem runFragment_keeps
    {R : RenderState α → RenderState α → Prop}
    [Std.Refl R]
    (env : Environment α)
    (handler : StartHandler α)
    (root : Frame α)
    (expected? : Option String)
    (items : List Item)
    (hRun :
      ∀ rest st,
        R st
          (runOpenFragment env handler (.ofOpenElement root)
            st rest).2) :
    Action.Keeps R (runFragment env handler root expected? items) := by
  intro st
  unfold runFragment
  rw [Action.perform_bind, Action.perform_ofExcept]
  cases fragmentRoot env expected? items with
  | error fault => exact Std.Refl.refl st
  | ok rest => exact hRun rest st

------------------------------------------------------------
-- Transformations
------------------------------------------------------------

/- Every frame is a matrix and the state is a given one. -/
def OnlyMatrices
    (base : RenderState α)
    (entries : List (Entry α))
    (st : RenderState α) : Prop :=
  (∀ entry ∈ entries, ∃ m, entry.frame = .matrix m) ∧ base = st

/- Matrices are read without a trace. -/
theorem onlyMatrices_invariant
    (env : Environment α)
    (base : RenderState α) :
    Stack.Invariant env startStored (OnlyMatrices base) where
  start := by
    rintro top below depth e st ⟨hFrames, rfl⟩
    rcases hFrames top (by simp) with ⟨m, hTop⟩
    rw [hTop, startStored, Action.perform_bind,
      Action.perform_ofExcept]
    cases startMatrix e m with
    | error fault => exact ⟨hFrames, rfl⟩
    | ok m' =>
        refine ⟨?_, rfl⟩
        simp_all
  child := by
    rintro top below name st ⟨hFrames, rfl⟩
    rcases hFrames top (by simp) with ⟨m, hTop⟩
    rw [hTop]
    refine ⟨?_, rfl⟩
    simp_all [Frame.endChild]
  root := by
    rintro top st st' product ⟨hFrames, rfl⟩ hFinish
    rcases hFrames top (by simp) with ⟨m, hTop⟩
    rw [hTop] at hFinish
    cases hFinish
    exact ⟨by simp, rfl⟩
  hand := by
    rintro top parent below name st st' product ⟨hFrames, rfl⟩ hFinish
    rcases hFrames top (by simp) with ⟨m, hTop⟩
    rcases hFrames parent (by simp) with ⟨m', hParent⟩
    rw [hTop] at hFinish
    cases hFinish
    rw [hParent]
    refine ⟨?_, rfl⟩
    simp_all [Frame.endChild]
  spoil := by
    rintro top below st st' fault ⟨hFrames, rfl⟩ hFinish
    rcases hFrames top (by simp) with ⟨m, hTop⟩
    rw [hTop] at hFinish
    cases hFinish
  abort := by
    rintro top below st ⟨hFrames, rfl⟩
    rcases hFrames top (by simp) with ⟨m, hTop⟩
    rw [hTop]
    exact ⟨fun entry hEntry => hFrames entry (by simp [hEntry]), rfl⟩

/- A stored matrix is read without a trace. -/
theorem storedTransform_keeps
    (env : Environment α)
    (key : String) :
    Action.Keeps Eq (storedTransform env key) := by
  unfold storedTransform
  refine Action.Keeps.bind ?_ fun markup =>
    Action.Keeps.bind ?_ fun product => ?_
  · intro st
    unfold Action.resource
    rw [Action.perform_ofEffect]
    cases st.scope.get? key <;> rfl
  · apply runFragment_keeps
    intro rest st
    have hDone :=
      (onlyMatrices_invariant env st).runOpenFragment rest
        (.ofOpenElement (.matrix .identity)) st
        ⟨by simp [Stack.ofOpenElement], rfl⟩
    exact hDone.2
  · cases product <;> exact Action.Keeps.pure _

/- A transformation is read without a trace. -/
theorem transformValue_keeps
    (env : Environment α)
    (e : Element)
    (name value : String) :
    Action.Keeps Eq (transformValue env e name value) := by
  unfold transformValue
  split
  · exact storedTransform_keeps env _
  · exact Action.Keeps.ofExcept _

/- A geometry is read without a trace. -/
theorem geometryValue_keeps
    (env : Environment α)
    (value : String) :
    Action.Keeps Eq (geometryValue env value) := by
  unfold geometryValue
  split
  · refine Action.Keeps.bind ?_ fun markup =>
      Action.Keeps.ofExcept _
    intro st
    unfold Action.resource
    rw [Action.perform_ofEffect]
    cases st.scope.get? _ <;> rfl
  · exact Action.Keeps.pure _

------------------------------------------------------------
-- Colors
------------------------------------------------------------

/- A color changes nothing but the profiles in memory. -/
theorem colorValue_perform
    (env : Environment α)
    (e : Element)
    (name value : String)
    (st : RenderState α) :
    ∃ profiles,
      ((colorValue env e name value).perform st).2 =
        { st with profiles := profiles } := by
  unfold colorValue
  rw [Action.perform_ofEffect]
  dsimp only
  split <;> exact ⟨_, rfl⟩

------------------------------------------------------------
-- Dictionaries
------------------------------------------------------------

/-
  The states differ at most in the innermost dictionary in
  scope.
-/
def RenderState.SameOuter
    (st st' : RenderState α) : Prop :=
  ∃ scope : ResourceScope,
    scope.pop = st.scope.pop ∧ st' = { st with scope := scope }

instance : Std.Refl (RenderState.SameOuter (α := α)) where
  refl st := ⟨st.scope, rfl, rfl⟩

instance :
    IsTrans (RenderState α) RenderState.SameOuter where
  trans := by
    rintro st st' st'' ⟨scope, hPop, rfl⟩ ⟨scope', hPop', rfl⟩
    exact ⟨scope', hPop'.trans hPop, rfl⟩

omit [Scalar α] in
/- A stored entry goes to the innermost dictionary. -/
theorem endEntry_sameOuter
    (current? : Option ResourceEntry)
    (name : String)
    (st : RenderState α) :
    st.SameOuter (endEntry current? name st).2 := by
  unfold endEntry
  split
  · exact Std.Refl.refl st
  · split
    · exact Std.Refl.refl st
    · refine ⟨_, ?_, rfl⟩
      unfold ResourceScope.set ResourceScope.pop
      cases st.scope.dictionaries <;> dsimp only <;>
        split <;> rfl

/- Every frame is a dictionary, which keeps the outer scope. -/
def OnlyDictionaries
    (base : RenderState α)
    (entries : List (Entry α))
    (st : RenderState α) : Prop :=
  (∀ entry ∈ entries, ∃ current?, entry.frame = .dictionary current?)
    ∧ base.SameOuter st

/- Dictionaries change nothing but the innermost one. -/
theorem onlyDictionaries_invariant
    (env : Environment α)
    (base : RenderState α) :
    Stack.Invariant env startStored (OnlyDictionaries base) where
  start := by
    rintro top below depth e st ⟨hFrames, hSame⟩
    rcases hFrames top (by simp) with ⟨current?, hTop⟩
    rw [hTop, startStored, Action.perform_bind,
      Action.perform_ofExcept]
    cases startEntry e current? with
    | error fault => exact ⟨hFrames, hSame⟩
    | ok next? =>
        refine ⟨?_, hSame⟩
        simp_all
  child := by
    rintro top below name st ⟨hFrames, hSame⟩
    rcases hFrames top (by simp) with ⟨current?, hTop⟩
    rw [hTop]
    refine ⟨?_, IsTrans.trans _ _ _ hSame
      (endEntry_sameOuter current? name st)⟩
    simp_all [Frame.endChild]
  root := by
    rintro top st st' product ⟨hFrames, hSame⟩ hFinish
    rcases hFrames top (by simp) with ⟨current?, hTop⟩
    rw [hTop] at hFinish
    cases hFinish
    exact ⟨by simp, hSame⟩
  hand := by
    rintro top parent below name st st' product ⟨hFrames, hSame⟩
      hFinish
    rcases hFrames top (by simp) with ⟨current?, hTop⟩
    rcases hFrames parent (by simp) with ⟨current'?, hParent⟩
    rw [hTop] at hFinish
    cases hFinish
    rw [hParent]
    refine ⟨?_, IsTrans.trans _ _ _ hSame
      (endEntry_sameOuter current'? name st)⟩
    simp_all [Frame.endChild]
  spoil := by
    rintro top below st st' fault ⟨hFrames, hSame⟩ hFinish
    rcases hFrames top (by simp) with ⟨current?, hTop⟩
    rw [hTop] at hFinish
    cases hFinish
  abort := by
    rintro top below st ⟨hFrames, hSame⟩
    rcases hFrames top (by simp) with ⟨current?, hTop⟩
    rw [hTop]
    exact
      ⟨fun entry hEntry => hFrames entry (by simp [hEntry]), hSame⟩

/-
  A dictionary of its own part changes nothing but the innermost
  dictionary in scope.
-/
theorem loadDictionary_keeps
    (env : Environment α)
    (source : String) :
    Action.Keeps RenderState.SameOuter
      (loadDictionary env source) := by
  unfold loadDictionary
  dsimp only
  split
  · exact Action.Keeps.fail _
  · refine Action.Keeps.bind (Action.Keeps.ofExcept _) fun items =>
      Action.Keeps.bind ?_ fun product => Action.Keeps.pure _
    apply runFragment_keeps
    intro rest st
    have hDone :=
      (onlyDictionaries_invariant env st).runOpenFragment rest
        (.ofOpenElement (.dictionary none)) st
        ⟨by simp [Stack.ofOpenElement], Std.Refl.refl st⟩
    exact hDone.2

end FixedPage

namespace FixedPage

open Markup

variable {α : Type}

------------------------------------------------------------
-- Steady relations
------------------------------------------------------------

/-
  A relation between states that drawing and reading keep:
  `R false` is the strong and `R true` the weak form.
-/
class Steady
    [Scalar α]
    (R : Bool → RenderState α → RenderState α → Prop) : Prop where
  refl :
    ∀ (t : Bool) (st : RenderState α), R t st st
  trans :
    ∀ {t : Bool} {st st' st'' : RenderState α},
      R t st st' → R t st' st'' → R t st st''
  weaken :
    ∀ {t : Bool} {st st' : RenderState α},
      R false st st' → R t st st'
  record :
    ∀ (st : RenderState α) (op : Operation α),
      op.isPlain = true → R true st (st.draw (Surface.record op))
  transform :
    ∀ (st : RenderState α) (m : Matrix α),
      R true st (st.draw (Surface.transform m))
  bracket :
    ∀ {st st' : RenderState α} (t : Bool) (b : Bracket),
      R true (st.draw b.enter) st' → R t st (st'.draw b.leave)
  caches :
    ∀ (t : Bool) (st : RenderState α)
      (fonts : Cache (Font α)) (images : Cache (Image α))
      (profiles : ProfileCache α),
      R t st
        { st with
          fonts := fonts
          images := images
          profiles := profiles }

section

variable [Scalar α]
variable {R : Bool → RenderState α → RenderState α → Prop}
variable [Steady R] {t : Bool}

instance : Std.Refl (R t) where
  refl := Steady.refl t

instance : IsTrans (RenderState α) (R t) where
  trans _ _ _ := Steady.trans

namespace Action.Keeps

variable {β : Type}

/- What leaves the state alone is steady. -/
theorem steady
    {x : Action α β}
    (hKeeps : Keeps Eq x) :
    Keeps (R t) x :=
  .of_eq hKeeps

/- The strong form of a relation gives the weak one. -/
theorem weaken
    {x : Action α β}
    (hKeeps : Keeps (R false) x) :
    Keeps (R t) x :=
  fun st => Steady.weaken (hKeeps st)

/- A result that is used without further actions. -/
theorem thenPure
    {γ : Type}
    {x : Action α β}
    (f : β → γ)
    (hKeeps : Keeps (R t) x) :
    Keeps (R t) (x >>= fun b => Pure.pure (f b)) :=
  hKeeps.bind fun b => pure (f b)

/- A value that is read without the state. -/
theorem readPure
    {γ : Type}
    (x : Except Error β)
    (f : β → γ) :
    Keeps (R t)
      (Action.ofExcept x >>= fun b => Pure.pure (f b)) :=
  (ofExcept x).bind fun b => pure (f b)

end Action.Keeps

------------------------------------------------------------
-- Path data
------------------------------------------------------------

/- Steps of a path are steady. -/
theorem Steady.takeAll
    (steps : List (PathStep α))
    (st : RenderState α) :
    R true st (st.draw (Surface.takeAll steps)) := by
  induction steps generalizing st with
  | nil => exact Steady.refl true st
  | cons step rest ih =>
      have hStep :
          R true st (st.draw fun s => s.take step) := by
        cases step with
        | draw s => exact Steady.record st (.segment s) rfl
        | rule r => exact Steady.record st (.setFillRule r) rfl
      exact Steady.trans hStep (ih _)

/- Path data is steady up to its end or its fault. -/
theorem drawData_keeps
    (data : String) :
    Action.Keeps (R true) (drawData data) := by
  intro st
  unfold drawData
  rw [Action.perform_ofEffect]
  have hSteps :=
    Steady.takeAll (R := R) (PathData.trace data).steps st
  unfold Surface.drawData
  dsimp only
  split <;> exact hSteps

/- A clip is steady. -/
theorem clipToAny_keeps
    (data? : Option String) :
    Action.Keeps (R true) (clipToAny (α := α) data?) := by
  unfold clipToAny
  split
  · exact .pure ()
  · unfold clipTo
    refine .bind (fun st => Steady.record st .newPath rfl)
      fun _ => .bind (drawData_keeps _) fun _ st => ?_
    exact Steady.record st .clip rfl

------------------------------------------------------------
-- Values
------------------------------------------------------------

/- A color is steady. -/
theorem colorValue_keeps
    (env : Environment α)
    (e : Element)
    (name value : String) :
    Action.Keeps (R t) (colorValue env e name value) := by
  intro st
  rcases colorValue_perform env e name value st with
    ⟨profiles, hState⟩
  rw [hState]
  exact Steady.caches t st st.fonts st.images profiles

/- A brush is steady when looking it up is. -/
theorem brushValue_keeps
    (env : Environment α)
    {lookup : BrushLookup α}
    (hLookup : ∀ key, (lookup key).Keeps (R t))
    (e : Element)
    (name value : String) :
    Action.Keeps (R t) (brushValue env lookup e name value) := by
  unfold brushValue
  split
  · exact hLookup _
  · exact (colorValue_keeps env e name value).thenPure _

/- A transformation that is read and applied is weakly steady. -/
theorem transformWith_keeps
    {β : Type}
    (env : Environment α)
    (e : Element)
    (name value : String)
    (b : β) :
    Action.Keeps (R true)
      (do
        let matrix ← transformValue env e name value
        Action.draw (Surface.transform matrix)
        pure b) :=
  .bind (.steady (transformValue_keeps env e name value))
    fun m => .bind (fun st => Steady.transform st m)
      fun _ => .pure b

------------------------------------------------------------
-- Brushes
------------------------------------------------------------

/- A common attribute of brushes is read without a trace. -/
theorem BrushStyle.takeAttribute_keeps
    (env : Environment α)
    (grammar : BrushGrammar)
    (e : Element)
    (style : BrushStyle α)
    (a : Attribute) :
    Action.Keeps Eq
      (BrushStyle.takeAttribute env grammar e style a) := by
  unfold BrushStyle.takeAttribute
  split
  · exact .pure _
  · split
    · exact .pure _
    · split
      · exact .bind (.ofExcept _) fun _ => .pure _
      · split
        · exact .bind (transformValue_keeps env e _ _)
            fun _ => .pure _
        · exact .fail _

/- The common attributes of brushes are read without a trace. -/
theorem BrushStyle.read_keeps
    (env : Environment α)
    (grammar : BrushGrammar)
    (extend : Extend)
    (e : Element) :
    Action.Keeps Eq (BrushStyle.read env grammar extend e) :=
  .foldlM (takeAttribute_keeps env grammar e) _ _

/- A gradient is read without a trace. -/
theorem GradientBrush.read_keeps
    (env : Environment α)
    (course : List String)
    (shapeOf : Element → Except Error (GradientShape α))
    (e : Element) :
    Action.Keeps Eq (GradientBrush.read env course shapeOf e) :=
  .bind (BrushStyle.read_keeps env _ _ e)
    fun _ => .bind (.ofExcept _) fun _ => .pure _

/- An image brush is read without a trace. -/
theorem ImageBrush.read_keeps
    (env : Environment α)
    (e : Element) :
    Action.Keeps Eq (ImageBrush.read env e) :=
  .bind (BrushStyle.read_keeps env _ _ e) fun _ => .ofExcept _

/- A visual brush is read without a trace. -/
theorem VisualBrush.read_keeps
    (env : Environment α)
    (e : Element) :
    Action.Keeps Eq (VisualBrush.read env e) :=
  .bind (BrushStyle.read_keeps env _ _ e) fun _ => .ofExcept _

/- A brush of one color is steady. -/
theorem SolidBrush.read_keeps
    (env : Environment α)
    (e : Element) :
    Action.Keeps (R t) (SolidBrush.read env e) := by
  unfold SolidBrush.read
  refine .bind (.foldlM (fun b a => ?_) _ _) fun _ =>
    .bind (.ofExcept _) fun _ => .pure _
  unfold SolidBrush.takeAttribute
  split
  · exact (colorValue_keeps env e _ _).thenPure _
  · exact .readPure _ _
  · split
    · exact .pure _
    · exact .fail _

/- A stop of a gradient is steady. -/
theorem GradientBrush.readStop_keeps
    (env : Environment α)
    (e : Element) :
    Action.Keeps (R t) (GradientBrush.readStop env e) := by
  unfold GradientBrush.readStop
  dsimp only
  split
  · exact .bind (.fail _) fun _ =>
      .bind (.ofExcept _) fun color =>
        .bind (.ofExcept _) fun offset =>
          (colorValue_keeps env e _ _).thenPure _
  · exact .bind (.ofExcept _) fun color =>
      .bind (.ofExcept _) fun offset =>
        (colorValue_keeps env e _ _).thenPure _

------------------------------------------------------------
-- Elements that draw
------------------------------------------------------------

section

variable {lookup : BrushLookup α}

/- An attribute of a path is steady unless it is to be turned. -/
theorem PathState.takeAttribute_keeps
    (env : Environment α)
    (hLookup : ∀ key, (lookup key).Keeps (R t))
    (e : Element)
    (state : PathState α)
    (a : Attribute)
    (hTurns : a.name = "RenderTransform" → t = true) :
    Action.Keeps (R t)
      (PathState.takeAttribute env lookup e state a) := by
  unfold PathState.takeAttribute
  split
  · exact .thenPure _ (.steady (geometryValue_keeps env _))
  · exact .thenPure _ (.steady (geometryValue_keeps env _))
  · rename_i hName
    cases hTurns hName
    exact transformWith_keeps env e _ _ _
  · exact .thenPure _ (brushValue_keeps env hLookup e _ _)
  · exact .thenPure _ (brushValue_keeps env hLookup e _ _)
  · exact .thenPure _ (brushValue_keeps env hLookup e _ _)
  · exact .readPure _ _
  · split
    · exact .pure _
    · exact .readPure _ _

/- An attribute of the geometry of a path is weakly steady. -/
theorem PathFrame.takeGeometryAttribute_keeps
    (env : Environment α)
    (e : Element)
    (f : PathFrame α)
    (a : Attribute) :
    Action.Keeps (R true)
      (PathFrame.takeGeometryAttribute env e f a) := by
  unfold PathFrame.takeGeometryAttribute
  split
  · exact .pure _
  · exact transformWith_keeps env e _ _ _
  · exact .pure _

/- An attribute of a glyph run is steady likewise. -/
theorem GlyphRun.takeAttribute_keeps
    (env : Environment α)
    (hLookup : ∀ key, (lookup key).Keeps (R t))
    (e : Element)
    (run : GlyphRun α)
    (a : Attribute)
    (hTurns : a.name = "RenderTransform" → t = true) :
    Action.Keeps (R t)
      (GlyphRun.takeAttribute env lookup e run a) := by
  unfold GlyphRun.takeAttribute
  split
  · exact .pure _
  · exact .pure _
  · exact .thenPure _ (brushValue_keeps env hLookup e _ _)
  · exact .thenPure _ (brushValue_keeps env hLookup e _ _)
  · exact .thenPure _ (.steady (geometryValue_keeps env _))
  · rename_i hName
    cases hTurns hName
    exact transformWith_keeps env e _ _ _
  · exact .readPure _ _
  · exact .readPure _ _
  · exact .pure _
  · exact .readPure _ _
  · exact .pure _

/- An attribute of a canvas is steady likewise. -/
theorem CanvasStyle.takeAttribute_keeps
    (env : Environment α)
    (hLookup : ∀ key, (lookup key).Keeps (R t))
    (e : Element)
    (style : CanvasStyle α)
    (a : Attribute)
    (hTurns : a.name = "RenderTransform" → t = true) :
    Action.Keeps (R t)
      (CanvasStyle.takeAttribute env lookup e style a) := by
  unfold CanvasStyle.takeAttribute
  split
  · rename_i hName
    cases hTurns hName
    exact transformWith_keeps env e _ _ _
  · exact .thenPure _ (.steady (geometryValue_keeps env _))
  · exact .readPure _ _
  · exact .thenPure _ (brushValue_keeps env hLookup e _ _)
  · exact .pure _

/- The attributes of a canvas and its clip are weakly steady. -/
theorem CanvasStyle.read_keeps
    (env : Environment α)
    (hLookup : ∀ key, (lookup key).Keeps (R true))
    (e : Element) :
    Action.Keeps (R true) (CanvasStyle.read env lookup e) :=
  .bind
    (.foldlM
      (fun style a =>
        takeAttribute_keeps env hLookup e style a fun _ => rfl) _ _)
    fun _ => .bind (clipToAny_keeps _) fun _ => .pure _

end

end

end FixedPage
