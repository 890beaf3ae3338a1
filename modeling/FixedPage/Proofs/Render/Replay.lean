import FixedPage.Proofs.Render.Depth

/-
  This file proves that reading stored brushes ends without a
  budget. A brush that is read asks for other brushes only in
  the content of a visual brush, so each of them is asked for
  with more visual brushes under way, within the limit.

  Main declarations:
    * `readBrush`
    * `Reads`
    * `AsksBrush`
    * `startElement_congr`
    * `pageBrush_eq_readBrush`
    * `eq_pageBrush_of_eq_readBrush`
-/

namespace FixedPage

open Markup

variable {α : Type} [Scalar α]

------------------------------------------------------------
-- Reading a brush
------------------------------------------------------------

/-
  Reads the brush stored under a key, where the brushes that it
  refers to are looked up as given.
-/
def readBrush
    (env : Environment α)
    (lookup : BrushLookup α)
    (key : String) : Action α (Option (Pattern α)) := do
  let markup ← Action.resource key
  let handler := startElement env lookup
  let items := readText env.source markup
  match ← runFragment env handler (.brush none) none items with
  | .pattern pattern? => pure pattern?
  | _ => pure none

/- One more brush may be under way outside of those inside it. -/
theorem storedBrush_succ
    (env : Environment α)
    (budget : Nat)
    (key : String) :
    storedBrush env (budget + 1) key =
      readBrush env (storedBrush env budget) key :=
  rfl

------------------------------------------------------------
-- Attributes that are read
------------------------------------------------------------

omit [Scalar α] in
/-
  The attributes before `a` have been taken, which gave `b` and
  the state `st'`, and `a` is next.
-/
def TakesNext
    {β : Type}
    (take : β → Attribute → Action α β)
    (init : β)
    (as : List Attribute)
    (st : RenderState α)
    (b : β)
    (a : Attribute)
    (st' : RenderState α) : Prop :=
  ∃ before after,
    as = before ++ a :: after ∧
      Action.perform (before.foldlM take init) st = (.ok b, st')

/- How brushes that have a transformation read their attributes. -/
def brushGrammars : List (String × BrushGrammar × Extend) :=
  [("LinearGradientBrush",
      .gradient ["StartPoint", "EndPoint"], .pad),
    ("RadialGradientBrush",
      .gradient ["GradientOrigin", "Center", "RadiusX", "RadiusY"],
      .pad),
    ("ImageBrush", .tile ["ImageSource"], .none),
    ("VisualBrush", .tile ["Opacity", "Visual"], .none)]

/-
  An element that starts inside a frame comes to read one of its
  attributes, in a state that the attributes before have left.
-/
inductive Reads
    (env : Environment α)
    (lookup : BrushLookup α)
    (frame : Frame α)
    (e : Element)
    (st : RenderState α)
    (a : Attribute)
    (st' : RenderState α) : Prop
| canvas
    (s : CanvasStyle α)
    (hFrame : frame.kind ∈ [.page, .visual, .canvas])
    (hName : e.name = "Canvas")
    (hNext :
      TakesNext (CanvasStyle.takeAttribute env lookup e)
        ⟨none, 1, none⟩ e.attributes (st.draw Surface.save) s a st')
| path
    (s : PathState α)
    (hFrame : frame.kind ∈ [.page, .visual, .canvas])
    (hName : e.name = "Path")
    (hNext :
      TakesNext (PathState.takeAttribute env lookup e) .initial
        e.attributes (st.draw Surface.save) s a st')
| glyphs
    (run s : GlyphRun α)
    (hFrame : frame.kind ∈ [.page, .visual, .canvas])
    (hName : e.name = "Glyphs")
    (hRun : GlyphRun.read env e = .ok run)
    (hNext :
      TakesNext (GlyphRun.takeAttribute env lookup e) run
        e.attributes (st.draw Surface.save) s a st')
| geometry
    (f s : PathFrame α)
    (hFrame : frame = .path f)
    (hClip : f.inClip = false)
    (hName : e.name = "PathGeometry")
    (hNext :
      TakesNext (PathFrame.takeGeometryAttribute env e) f
        e.attributes st s a st')
| brush
    (grammar : BrushGrammar)
    (extend : Extend)
    (s : BrushStyle α)
    (hFrame : frame.kind = .brush)
    (hGrammar : (e.name, grammar, extend) ∈ brushGrammars)
    (hDepth :
      e.name = "VisualBrush" →
        st.visualDepth < env.options.maxVisualDepth)
    (hNext :
      TakesNext (BrushStyle.takeAttribute env grammar e)
        ⟨extend, .identity, 1⟩ e.attributes st s a st')

/- Attributes of an element that may refer to a stored brush. -/
def brushAttributes : String → List String
| "Canvas" => ["OpacityMask"]
| "Path" => ["Fill", "Stroke", "OpacityMask"]
| "Glyphs" => ["Fill", "OpacityMask"]
| _ => []

/- The attribute of an element that may refer to a matrix. -/
def matrixAttribute : String → String
| "Canvas" => "RenderTransform"
| "Path" => "RenderTransform"
| "Glyphs" => "RenderTransform"
| _ => "Transform"

omit [Scalar α] in
/- A brush refers to no brush in its attributes. -/
theorem brushAttributes_of_grammar
    {name property : String}
    {grammar : BrushGrammar}
    {extend : Extend}
    (hGrammar : (name, grammar, extend) ∈ brushGrammars) :
    property ∉ brushAttributes name := by
  simp only [brushGrammars, List.mem_cons, Prod.mk.injEq,
    List.not_mem_nil, or_false] at hGrammar
  rcases hGrammar with ⟨rfl, _⟩ | ⟨rfl, _⟩ | ⟨rfl, _⟩ | ⟨rfl, _⟩ <;>
    simp [brushAttributes]

/- An element that starts asks for the brush under a key. -/
def AsksBrush
    (env : Environment α)
    (lookup : BrushLookup α)
    (frame : Frame α)
    (e : Element)
    (st : RenderState α)
    (key : String)
    (st' : RenderState α) : Prop :=
  ∃ a,
    Reads env lookup frame e st a st' ∧
      a.name ∈ brushAttributes e.name ∧
        Value.resourceKey? a.value = some key

/- An element that starts asks for the matrix under a key. -/
def AsksMatrix
    (env : Environment α)
    (lookup : BrushLookup α)
    (frame : Frame α)
    (e : Element)
    (st : RenderState α)
    (key : String)
    (st' : RenderState α) : Prop :=
  ∃ a,
    Reads env lookup frame e st a st' ∧
      a.name = matrixAttribute e.name ∧
        Value.resourceKey? a.value = some key

------------------------------------------------------------
-- Steadiness
------------------------------------------------------------

omit [Scalar α] in
/- The attributes before the next one keep what each keeps. -/
theorem TakesNext.keeps
    {β : Type}
    {R : RenderState α → RenderState α → Prop}
    [Std.Refl R]
    [IsTrans (RenderState α) R]
    {take : β → Attribute → Action α β}
    (hTake : ∀ b a, (take b a).Keeps R)
    {init b : β}
    {as : List Attribute}
    {a : Attribute}
    {st st' : RenderState α}
    (hNext : TakesNext take init as st b a st') :
    R st st' := by
  rcases hNext with ⟨before, after, _, hBefore⟩
  have hKept := Action.Keeps.foldlM hTake init before st
  rwa [hBefore] at hKept

/- No visual brush begins or ends while attributes are read. -/
theorem Reads.sameDepth
    {env : Environment α}
    {lookup : BrushLookup α}
    (hLookup : ∀ key, (lookup key).Keeps (SameDepth true))
    {frame : Frame α}
    {e : Element}
    {a : Attribute}
    {st st' : RenderState α}
    (hReads : Reads env lookup frame e st a st') :
    st'.visualDepth = st.visualDepth := by
  have hSaved :
      ∀ {read : RenderState α},
        SameDepth true (st.draw Surface.save) read →
          read.visualDepth = st.visualDepth :=
    fun hSame => hSame
  cases hReads with
  | canvas s _ _ hNext =>
      exact
        hSaved
          (hNext.keeps fun style a =>
            CanvasStyle.takeAttribute_keeps env hLookup e style a fun _ => rfl)
  | path s _ _ hNext =>
      exact
        hSaved
          (hNext.keeps fun state a =>
            PathState.takeAttribute_keeps env hLookup e state a fun _ => rfl)
  | glyphs run s _ _ _ hNext =>
      exact
        hSaved
          (hNext.keeps fun run a =>
            GlyphRun.takeAttribute_keeps env hLookup e run a fun _ => rfl)
  | geometry f s _ _ _ hNext =>
      exact
        hNext.keeps (R := SameDepth true)
          (PathFrame.takeGeometryAttribute_keeps env e)
  | brush grammar extend s _ _ _ hNext =>
      have hSame :=
        hNext.keeps (R := Eq)
          (BrushStyle.takeAttribute_keeps env grammar e)
      rw [hSame]

------------------------------------------------------------
-- Congruence
------------------------------------------------------------

section

variable {env : Environment α} {lookup lookup' : BrushLookup α}

omit [Scalar α] in
/- Attributes are taken alike if the next one always is. -/
theorem foldlM_perform_congr
    {β : Type}
    {take take' : β → Attribute → Action α β}
    (init : β)
    (as : List Attribute)
    (st : RenderState α)
    (hNext :
      ∀ b a st',
        TakesNext take' init as st b a st' →
          (take b a).perform st' = (take' b a).perform st') :
    Action.perform (as.foldlM take init) st =
      Action.perform (as.foldlM take' init) st := by
  induction as generalizing init st with
  | nil => rfl
  | cons a as ih =>
      have hFirst := hNext init a st ⟨[], as, rfl, rfl⟩
      rw [List.foldlM_cons, List.foldlM_cons, Action.perform_bind,
        Action.perform_bind, hFirst]
      cases hTaken : (take' init a).perform st with
      | mk result st₁ =>
          cases result with
          | error fault => rfl
          | ok b₁ =>
              apply ih b₁ st₁
              rintro b a₂ st₂ ⟨before, after, rfl, hBefore⟩
              refine hNext b a₂ st₂ ⟨a :: before, after, rfl, ?_⟩
              rw [List.foldlM_cons, Action.perform_bind_ok hTaken]
              exact hBefore

/- A brush is read alike if the one that is asked for is. -/
theorem brushValue_congr
    (e : Element)
    (name value : String)
    (st : RenderState α)
    (hAsked :
      ∀ key,
        Value.resourceKey? value = some key →
          (lookup key).perform st = (lookup' key).perform st) :
    (brushValue env lookup e name value).perform st =
      (brushValue env lookup' e name value).perform st := by
  unfold brushValue
  cases hKey : Value.resourceKey? value with
  | none => rfl
  | some key => exact hAsked key hKey

omit [Scalar α] in
/- What follows a step is the same after the same step. -/
theorem perform_bind_congr
    {β γ : Type}
    {x x' : Action α β}
    (f : β → Action α γ)
    {st : RenderState α}
    (hFirst : x.perform st = x'.perform st) :
    (x >>= f).perform st = (x' >>= f).perform st := by
  rw [Action.perform_bind, Action.perform_bind, hFirst]

omit [Scalar α] in
/- The undoing step is the same after the same step. -/
theorem perform_onError_congr
    {β : Type}
    {x x' : Action α β}
    (undo : RenderState α → RenderState α)
    {st : RenderState α}
    (hFirst : x.perform st = x'.perform st) :
    (x.onError undo).perform st = (x'.onError undo).perform st := by
  rw [Action.perform_onError, Action.perform_onError, hFirst]

/- An attribute of a canvas is taken alike. -/
theorem CanvasStyle.takeAttribute_congr
    (e : Element)
    (s : CanvasStyle α)
    (a : Attribute)
    (st : RenderState α)
    (hAsked :
      a.name ∈ brushAttributes "Canvas" →
        ∀ key,
          Value.resourceKey? a.value = some key →
            (lookup key).perform st = (lookup' key).perform st) :
    (takeAttribute env lookup e s a).perform st =
      (takeAttribute env lookup' e s a).perform st := by
  unfold takeAttribute
  split
  · rfl
  · rfl
  · rfl
  · rename_i hName
    refine perform_bind_congr _ (brushValue_congr e _ _ st ?_)
    exact hAsked (by simp [hName, brushAttributes])
  · rfl

/- An attribute of a path is taken alike. -/
theorem PathState.takeAttribute_congr
    (e : Element)
    (s : PathState α)
    (a : Attribute)
    (st : RenderState α)
    (hAsked :
      a.name ∈ brushAttributes "Path" →
        ∀ key,
          Value.resourceKey? a.value = some key →
            (lookup key).perform st = (lookup' key).perform st) :
    (takeAttribute env lookup e s a).perform st =
      (takeAttribute env lookup' e s a).perform st := by
  unfold takeAttribute
  split
  · rfl
  · rfl
  · rfl
  · rename_i hName
    refine perform_bind_congr _ (brushValue_congr e _ _ st ?_)
    exact hAsked (by simp [hName, brushAttributes])
  · rename_i hName
    refine perform_bind_congr _ (brushValue_congr e _ _ st ?_)
    exact hAsked (by simp [hName, brushAttributes])
  · rename_i hName
    refine perform_bind_congr _ (brushValue_congr e _ _ st ?_)
    exact hAsked (by simp [hName, brushAttributes])
  · rfl
  · rfl

/- An attribute of a glyph run is taken alike. -/
theorem GlyphRun.takeAttribute_congr
    (e : Element)
    (s : GlyphRun α)
    (a : Attribute)
    (st : RenderState α)
    (hAsked :
      a.name ∈ brushAttributes "Glyphs" →
        ∀ key,
          Value.resourceKey? a.value = some key →
            (lookup key).perform st = (lookup' key).perform st) :
    (takeAttribute env lookup e s a).perform st =
      (takeAttribute env lookup' e s a).perform st := by
  unfold takeAttribute
  split
  · rfl
  · rfl
  · rename_i hName
    refine perform_bind_congr _ (brushValue_congr e _ _ st ?_)
    exact hAsked (by simp [hName, brushAttributes])
  · rename_i hName
    refine perform_bind_congr _ (brushValue_congr e _ _ st ?_)
    exact hAsked (by simp [hName, brushAttributes])
  · rfl
  · rfl
  · rfl
  · rfl
  · rfl
  · rfl
  · rfl

/- An element of content starts alike. -/
theorem startContent_congr
    (frame : Frame α)
    (hFrame : frame.kind ∈ [.page, .visual, .canvas])
    (e : Element)
    (st : RenderState α)
    (hAsked :
      ∀ key st',
        AsksBrush env lookup' frame e st key st' →
          (lookup key).perform st' = (lookup' key).perform st') :
    (startContent env lookup e).perform st =
      (startContent env lookup' e).perform st := by
  unfold startContent
  split
  · rename_i hName
    apply perform_bind_congr
    unfold CanvasFrame.begin
    rw [Action.perform_bind_ok (Action.perform_draw _ _),
      Action.perform_bind_ok (Action.perform_draw _ _)]
    refine perform_bind_congr _ (perform_onError_congr _ ?_)
    apply perform_bind_congr
    apply foldlM_perform_congr
    intro s a st' hNext
    apply CanvasStyle.takeAttribute_congr e s a st'
    intro hBrush key hKey
    exact
      hAsked key st'
        ⟨a, .canvas s hFrame hName hNext, hName ▸ hBrush, hKey⟩
  · rename_i hName
    apply perform_bind_congr
    unfold PathFrame.begin
    rw [Action.perform_bind_ok (Action.perform_draw _ _),
      Action.perform_bind_ok (Action.perform_draw _ _)]
    refine perform_bind_congr _ (perform_onError_congr _ ?_)
    apply foldlM_perform_congr
    intro s a st' hNext
    apply PathState.takeAttribute_congr e s a st'
    intro hBrush key hKey
    exact
      hAsked key st'
        ⟨a, .path s hFrame hName hNext, hName ▸ hBrush, hKey⟩
  · rename_i hName
    apply perform_bind_congr
    unfold GlyphsFrame.begin
    rw [Action.perform_bind, Action.perform_bind,
      Action.perform_ofExcept]
    cases hRun : GlyphRun.read env e with
    | error fault => rfl
    | ok run =>
        dsimp only
        rw [Action.perform_bind_ok (Action.perform_draw _ _),
          Action.perform_bind_ok (Action.perform_draw _ _)]
        refine perform_bind_congr _ (perform_onError_congr _ ?_)
        apply foldlM_perform_congr
        intro s a st' hNext
        apply GlyphRun.takeAttribute_congr e s a st'
        intro hBrush key hKey
        exact
          hAsked key st'
            ⟨a, .glyphs run s hFrame hName hRun hNext,
              hName ▸ hBrush, hKey⟩
  · rfl

/-
  An element starts alike if the brushes that it asks for are
  the same.
-/
theorem startElement_congr
    (frame : Frame α)
    (e : Element)
    (st : RenderState α)
    (hAsked :
      ∀ key st',
        AsksBrush env lookup' frame e st key st' →
          (lookup key).perform st' = (lookup' key).perform st') :
    (startElement env lookup frame e).perform st =
      (startElement env lookup' frame e).perform st := by
  cases frame with
  | content f =>
      have hFrame :
          (Frame.content f).kind ∈ [.page, .visual, .canvas] := by
        rw [Frame.kind_content]
        split <;> decide
      have hContent := startContent_congr _ hFrame e st hAsked
      apply perform_bind_congr
      unfold ContentFrame.startChild
      split
      · rfl
      · rfl
      · split
        · rfl
        · exact perform_bind_congr _ hContent
      · split
        · rfl
        · exact perform_bind_congr _ hContent
      · exact perform_bind_congr _ hContent
  | canvas f =>
      have hContent := startContent_congr _ (by simp) e st hAsked
      apply perform_bind_congr
      unfold CanvasFrame.startChild
      split
      · rfl
      · rfl
      · rfl
      · exact perform_bind_congr _ hContent
  | _ => rfl

end

------------------------------------------------------------
-- Failures
------------------------------------------------------------

section

variable {env : Environment α} {lookup : BrushLookup α}
variable {fault : Error}

omit [Scalar α] in
/- What follows a step that fails is not performed. -/
theorem perform_bind_fails
    {β γ : Type}
    {x : Action α β}
    (f : β → Action α γ)
    {st : RenderState α}
    (hFails : (x.perform st).1 = .error fault) :
    ((x >>= f).perform st).1 = .error fault := by
  rw [Action.perform_bind]
  generalize x.perform st = outcome at hFails
  rcases outcome with ⟨result, st'⟩
  cases hFails
  rfl

omit [Scalar α] in
/- A step that fails is undone and fails. -/
theorem perform_onError_fails
    {β : Type}
    {x : Action α β}
    (undo : RenderState α → RenderState α)
    {st : RenderState α}
    (hFails : (x.perform st).1 = .error fault) :
    ((x.onError undo).perform st).1 = .error fault := by
  rw [Action.perform_onError]
  generalize x.perform st = outcome at hFails
  rcases outcome with ⟨result, st'⟩
  cases hFails
  rfl

omit [Scalar α] in
/- Attributes are not taken after one that fails. -/
theorem TakesNext.fails
    {β : Type}
    {take : β → Attribute → Action α β}
    {init b : β}
    {as : List Attribute}
    {a : Attribute}
    {st st' : RenderState α}
    (hNext : TakesNext take init as st b a st')
    (hFails : ((take b a).perform st').1 = .error fault) :
    (Action.perform (as.foldlM take init) st).1 = .error fault := by
  rcases hNext with ⟨before, after, rfl, hBefore⟩
  rw [List.foldlM_append, Action.perform_bind_ok hBefore,
    List.foldlM_cons]
  exact perform_bind_fails _ hFails

/- A brush that is asked for and cannot be read is a failure. -/
theorem brushValue_fails
    (e : Element)
    (name : String)
    {value key : String}
    {st : RenderState α}
    (hKey : Value.resourceKey? value = some key)
    (hFails : ((lookup key).perform st).1 = .error fault) :
    ((brushValue env lookup e name value).perform st).1 =
      .error fault := by
  unfold brushValue
  rw [hKey]
  exact hFails

/- A mask that cannot be read is a failure of its canvas. -/
theorem CanvasStyle.takeAttribute_fails
    (e : Element)
    (s : CanvasStyle α)
    {a : Attribute}
    {key : String}
    {st : RenderState α}
    (hName : a.name ∈ brushAttributes "Canvas")
    (hKey : Value.resourceKey? a.value = some key)
    (hFails : ((lookup key).perform st).1 = .error fault) :
    ((CanvasStyle.takeAttribute env lookup e s a).perform st).1 =
      .error fault := by
  simp only [brushAttributes, List.mem_cons, List.not_mem_nil,
    or_false] at hName
  unfold CanvasStyle.takeAttribute
  simp only [hName]
  exact perform_bind_fails _ (brushValue_fails e _ hKey hFails)

/- A brush that cannot be read is a failure of its path. -/
theorem PathState.takeAttribute_fails
    (e : Element)
    (s : PathState α)
    {a : Attribute}
    {key : String}
    {st : RenderState α}
    (hName : a.name ∈ brushAttributes "Path")
    (hKey : Value.resourceKey? a.value = some key)
    (hFails : ((lookup key).perform st).1 = .error fault) :
    ((PathState.takeAttribute env lookup e s a).perform st).1 =
      .error fault := by
  simp only [brushAttributes, List.mem_cons, List.not_mem_nil,
    or_false] at hName
  unfold PathState.takeAttribute
  rcases hName with hFill | hStroke | hMask
  · simp only [hFill]
    exact perform_bind_fails _ (brushValue_fails e _ hKey hFails)
  · simp only [hStroke]
    exact perform_bind_fails _ (brushValue_fails e _ hKey hFails)
  · simp only [hMask]
    exact perform_bind_fails _ (brushValue_fails e _ hKey hFails)

/- A brush that cannot be read is a failure of its glyphs. -/
theorem GlyphRun.takeAttribute_fails
    (e : Element)
    (s : GlyphRun α)
    {a : Attribute}
    {key : String}
    {st : RenderState α}
    (hName : a.name ∈ brushAttributes "Glyphs")
    (hKey : Value.resourceKey? a.value = some key)
    (hFails : ((lookup key).perform st).1 = .error fault) :
    ((GlyphRun.takeAttribute env lookup e s a).perform st).1 =
      .error fault := by
  simp only [brushAttributes, List.mem_cons, List.not_mem_nil,
    or_false] at hName
  unfold GlyphRun.takeAttribute
  rcases hName with hFill | hMask
  · simp only [hFill]
    exact perform_bind_fails _ (brushValue_fails e _ hKey hFails)
  · simp only [hMask]
    exact perform_bind_fails _ (brushValue_fails e _ hKey hFails)

/- Content starts as it does on a page in all frames for it. -/
theorem startElement_content
    {frame : Frame α}
    {e : Element}
    (hFrame : frame.kind ∈ [.page, .visual, .canvas])
    (hName : e.name ∈ ["Canvas", "Path", "Glyphs"]) :
    startElement env lookup frame e =
      startContent env lookup e >>= fun child? =>
        pure (frame, child?) := by
  cases frame with
  | content f =>
      unfold startElement ContentFrame.startChild
      dsimp only
      split <;>
        simp_all only [bind_assoc, pure_bind, List.mem_cons,
          String.reduceEq, List.not_mem_nil, or_self]
  | canvas f =>
      unfold startElement CanvasFrame.startChild
      dsimp only
      split <;>
        simp_all only [bind_assoc, pure_bind, List.mem_cons,
          String.reduceEq, List.not_mem_nil, or_self]
  | _ => simp at hFrame

/- An element does not start if a brush it asks for is a failure. -/
theorem AsksBrush.startElement_fails
    {frame : Frame α}
    {e : Element}
    {key : String}
    {st st' : RenderState α}
    (hAsks : AsksBrush env lookup frame e st key st')
    (hFails : ((lookup key).perform st').1 = .error fault) :
    ((startElement env lookup frame e).perform st).1 =
      .error fault := by
  rcases hAsks with ⟨a, hReads, hBrush, hKey⟩
  cases hReads with
  | canvas s hFrame hName hNext =>
      rw [hName] at hBrush
      rw [startElement_content hFrame (by simp [hName])]
      apply perform_bind_fails
      unfold startContent
      simp only [hName]
      apply perform_bind_fails
      unfold CanvasFrame.begin
      rw [Action.perform_bind_ok (Action.perform_draw _ _)]
      refine perform_bind_fails _ (perform_onError_fails _ ?_)
      apply perform_bind_fails
      apply hNext.fails
      exact s.takeAttribute_fails e hBrush hKey hFails
  | path s hFrame hName hNext =>
      rw [hName] at hBrush
      rw [startElement_content hFrame (by simp [hName])]
      apply perform_bind_fails
      unfold startContent
      simp only [hName]
      apply perform_bind_fails
      unfold PathFrame.begin
      rw [Action.perform_bind_ok (Action.perform_draw _ _)]
      refine perform_bind_fails _ (perform_onError_fails _ ?_)
      apply hNext.fails
      exact s.takeAttribute_fails e hBrush hKey hFails
  | glyphs run s hFrame hName hRun hNext =>
      rw [hName] at hBrush
      rw [startElement_content hFrame (by simp [hName])]
      apply perform_bind_fails
      unfold startContent
      simp only [hName]
      apply perform_bind_fails
      unfold GlyphsFrame.begin
      rw [Action.perform_bind, Action.perform_ofExcept, hRun]
      dsimp only
      rw [Action.perform_bind_ok (Action.perform_draw _ _)]
      refine perform_bind_fails _ (perform_onError_fails _ ?_)
      apply hNext.fails
      exact s.takeAttribute_fails e hBrush hKey hFails
  | geometry f s _ _ hName =>
      rw [hName] at hBrush
      simp [brushAttributes] at hBrush
  | brush grammar extend s _ hGrammar =>
      exact absurd hBrush (brushAttributes_of_grammar hGrammar)

end

------------------------------------------------------------
-- Recursion
------------------------------------------------------------

section

variable {env : Environment α} {lookup lookup' : BrushLookup α}

/- Two lookups agree with more visual brushes under way. -/
def AgreeAbove
    (env : Environment α)
    (lookup lookup' : BrushLookup α)
    (depth : Nat) : Prop :=
  ∀ (key : String) (st : RenderState α),
    depth < st.visualDepth →
      st.visualDepth ≤ env.options.maxVisualDepth →
        (lookup key).perform st = (lookup' key).perform st

/-
  A brush that the content of a stored brush asks for is asked
  for with more visual brushes under way, within the limit.
-/
theorem AsksBrush.deeper
    (hLookup : ∀ key, (lookup key).Keeps (SameDepth true))
    {base : Nat}
    {top : Entry α}
    {below : List (Entry α)}
    {e : Element}
    {key : String}
    {st st' : RenderState α}
    (hCounted :
      Stack.Counted .brush env.options.maxVisualDepth base
        (top :: below) st)
    (hAsks : AsksBrush env lookup top.frame e st key st') :
    base < st'.visualDepth ∧
      st'.visualDepth ≤ env.options.maxVisualDepth := by
  rcases hAsks with ⟨a, hReads, hBrush, _⟩
  have hSame := hReads.sameDepth hLookup
  have hFrame : top.frame.kind ∈ [.page, .visual, .canvas] := by
    cases hReads with
    | canvas _ hFrame => exact hFrame
    | path _ hFrame => exact hFrame
    | glyphs _ _ hFrame => exact hFrame
    | geometry f s _ _ hName =>
        rw [hName] at hBrush
        simp [brushAttributes] at hBrush
    | brush grammar extend s _ hGrammar =>
        exact absurd hBrush (brushAttributes_of_grammar hGrammar)
  have hPos := hCounted.grown.visuals_pos rfl hFrame
  have hDepth := hCounted.depth
  have hBound := hCounted.bound
  omega

/-
  A stored brush is read alike if the lookups agree with more
  visual brushes under way.
-/
theorem readBrush_congr
    (hLookup : ∀ key, (lookup' key).Keeps (SameDepth true))
    (key : String)
    (st : RenderState α)
    (hAgree : AgreeAbove env lookup lookup' st.visualDepth) :
    (readBrush env lookup key).perform st =
      (readBrush env lookup' key).perform st := by
  have hResource :
      ∃ result,
        (Action.resource key).perform st = (result, st) := by
    unfold Action.resource
    rw [Action.perform_ofEffect]
    split <;> exact ⟨_, rfl⟩
  rcases hResource with ⟨result, hResource⟩
  unfold readBrush
  rw [Action.perform_bind, Action.perform_bind, hResource]
  cases result with
  | error fault => rfl
  | ok markup =>
      apply perform_bind_congr
      unfold runFragment
      rw [Action.perform_bind, Action.perform_bind,
        Action.perform_ofExcept]
      cases fragmentRoot env none (readText env.source markup) with
      | error fault => rfl
      | ok rest =>
          refine
            (countedElement_invariant env hLookup .brush
              st.visualDepth).runOpenFragment_congr ?_ rest
                (.ofOpenElement (.brush none)) st
                (.start _ (.brush none) 1 rfl (by simp) st)
          intro top below e st₁ hCounted
          apply startElement_congr top.frame e st₁
          intro key' st' hAsks
          have hDeeper := hAsks.deeper hLookup hCounted
          exact hAgree key' st' hDeeper.1 hDeeper.2

/-
  The budget does not matter as long as it is one more than the
  number of visual brushes that may still begin.
-/
theorem storedBrush_perform_eq
    {budget budget' : Nat}
    (key : String)
    (st : RenderState α)
    (hBudget :
      env.options.maxVisualDepth - st.visualDepth < budget)
    (hBudget' :
      env.options.maxVisualDepth - st.visualDepth < budget') :
    (storedBrush env budget key).perform st =
      (storedBrush env budget' key).perform st := by
  induction budget generalizing budget' key st with
  | zero => omega
  | succ budget ih =>
      cases budget' with
      | zero => omega
      | succ budget' =>
          rw [storedBrush_succ, storedBrush_succ]
          refine
            readBrush_congr (storedBrush_sameDepth env budget')
              key st fun key' st' hDeeper hLimit => ?_
          exact ih key' st' (by omega) (by omega)

/- The brushes of a page are read with no budget in sight. -/
theorem pageBrush_eq_readBrush
    (env : Environment α)
    (key : String) :
    pageBrush env key = readBrush env (pageBrush env) key := by
  funext st
  refine
    readBrush_congr (storedBrush_sameDepth env _) key st
      fun key' st' hDeeper hLimit => ?_
  exact storedBrush_perform_eq key' st' (by omega) (by omega)

/-
  There is no other way to read the brushes of a page. Two of
  them would have to differ with ever more visual brushes under
  way.
-/
theorem eq_pageBrush_of_eq_readBrush
    (hRead : ∀ key, lookup key = readBrush env lookup key) :
    lookup = pageBrush env := by
  have hAgree :
      ∀ (left : Nat) (key : String) (st : RenderState α),
        env.options.maxVisualDepth - st.visualDepth ≤ left →
          (lookup key).perform st =
            (pageBrush env key).perform st := by
    intro left
    induction left with
    | zero =>
        intro key st hLeft
        rw [hRead key, pageBrush_eq_readBrush env key]
        refine
          readBrush_congr (storedBrush_sameDepth env _) key st
            fun key' st' hDeeper hLimit => ?_
        omega
    | succ left ih =>
        intro key st hLeft
        rw [hRead key, pageBrush_eq_readBrush env key]
        refine
          readBrush_congr (storedBrush_sameDepth env _) key st
            fun key' st' hDeeper hLimit => ?_
        exact ih key' st' (by omega)
  funext key st
  exact hAgree _ key st (Nat.le_refl _)

end

end FixedPage
