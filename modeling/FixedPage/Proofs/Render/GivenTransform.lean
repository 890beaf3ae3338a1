import FixedPage.Proofs.Render.Balance
import FixedPage.Proofs.Render.Scope

/-
  This file reads off the markup of a brush how it is transformed:
  by its attribute, unless an element inside of it says otherwise.
  The last one counts. While the content of a visual brush is
  drawn, the surface comes back to the same level after each
  element, so the transformation is the same for all of them.

  Main declarations:
    * `Element.readLast`
    * `Element.givenTransform`
    * `Elements.lastMatrix`
    * `Elements.lastTransform`
    * `Elements.take_image`
    * `Elements.take_visual`
-/

namespace FixedPage

open Markup

variable {α : Type} [Scalar α]

------------------------------------------------------------
-- Attributes
------------------------------------------------------------

/-
  Reads the last attribute with a name; a standard value stands in
  for one that is missing.
-/
def Element.readLast
    {β : Type}
    (e : Element)
    (name : String)
    (standard : β)
    (read : String → Action α β) : Action α β :=
  match PathFrame.lastValue? e name with
  | some value => read value
  | none => pure standard

/- The transformation that an attribute gives. -/
def Element.givenTransform
    (env : Environment α)
    (e : Element) : Action α (Matrix α) :=
  e.readLast "Transform" .identity (transformValue env e "Transform")

/- The opacity that an attribute gives. -/
def Element.givenOpacity
    (e : Element) : Action α α :=
  e.readLast "Opacity" 1 fun value =>
    Action.ofExcept (e.read "Opacity" Value.number? value)

omit [Scalar α] in
/-
  Attributes that are taken one after the other and change a field
  only if they have a name: the field is what the last attribute
  with that name gives.
-/
theorem Action.foldlM_readLast
    {σ β : Type}
    {take : σ → Attribute → Action α σ}
    (field : σ → β)
    {name : String}
    {read : String → Action α β}
    (hTakes :
      ∀ s a s' st st',
        (take s a).perform st = (.ok s', st') →
          st' = st ∧
            if a.name = name then
              (read a.value).perform st = (.ok (field s'), st)
            else field s' = field s)
    (e : Element)
    {s s' : σ}
    {st st' : RenderState α}
    (hOk :
      Action.perform (e.attributes.foldlM take s) st =
        (.ok s', st')) :
    st' = st ∧
      (e.readLast name (field s) read).perform st =
        (.ok (field s'), st) := by
  rcases e with ⟨place, elementName, attributes⟩
  unfold Element.readLast PathFrame.lastValue?
  dsimp only at hOk ⊢
  induction attributes generalizing s with
  | nil =>
      cases hOk
      exact ⟨rfl, rfl⟩
  | cons a rest ih =>
      rw [List.foldlM_cons, Action.perform_bind] at hOk
      rcases hTake : (take s a).perform st with ⟨fault | s₁, st₁⟩
      · rw [hTake] at hOk
        cases hOk
      · rw [hTake] at hOk
        rcases hTakes s a s₁ st st₁ hTake with ⟨rfl, hField⟩
        rcases ih hOk with ⟨rfl, hRest⟩
        refine ⟨rfl, ?_⟩
        rw [List.findRev?]
        cases hFind : rest.findRev? (·.name == name) with
        | some last =>
            rw [hFind] at hRest
            exact hRest
        | none =>
            rw [hFind] at hRest
            have hLater : field s₁ = field s' := by
              have hPure : Except.ok (field s₁) = _ :=
                congrArg Prod.fst hRest
              exact Except.ok.inj hPure
            by_cases hName : a.name = name
            · rw [if_pos (by simpa using hName)]
              rw [if_pos hName, hLater] at hField
              exact hField
            · rw [if_neg (by simpa using hName)]
              rw [if_neg hName] at hField
              change (Except.ok (field s), st') = _
              rw [← hField, hLater]

namespace BrushStyle

/- All that an attribute of a brush can change. -/
inductive Takes
    (env : Environment α)
    (grammar : BrushGrammar)
    (e : Element)
    (s : BrushStyle α)
    (a : Attribute)
    (st : RenderState α) : BrushStyle α → Prop
| passed
    (hName : grammar.passed.contains a.name = true) :
    Takes env grammar e s a st s
| extend
    (hName : a.name = grammar.extendName) :
    Takes env grammar e s a st
      { s with extend := grammar.extendOf a.value }
| opacity
    {opacity : α}
    (hName : a.name = "Opacity")
    (hRead : e.read "Opacity" Value.number? a.value = .ok opacity) :
    Takes env grammar e s a st { s with opacity := opacity }
| transform
    {m : Matrix α}
    (hName : a.name = "Transform")
    (hRead :
      (transformValue env e "Transform" a.value).perform st =
        (.ok m, st)) :
    Takes env grammar e s a st { s with matrix := m }

variable {env : Environment α} {grammar : BrushGrammar} {e : Element}
variable {s s' : BrushStyle α} {st st' : RenderState α}

/- An attribute is taken without a trace. -/
theorem takeAttribute_takes
    {a : Attribute}
    (hOk :
      (takeAttribute env grammar e s a).perform st = (.ok s', st')) :
    st' = st ∧ Takes env grammar e s a st s' := by
  unfold takeAttribute at hOk
  split at hOk
  · cases hOk
    exact ⟨rfl, .passed ‹_›⟩
  · split at hOk
    · cases hOk
      exact ⟨rfl, .extend (eq_of_beq ‹_›)⟩
    · split at hOk
      · rename_i hName
        have hName : a.name = "Opacity" := eq_of_beq hName
        rw [hName, Action.perform_bind, Action.perform_ofExcept] at hOk
        generalize hRead :
          (e.read "Opacity" Value.number? a.value : Except Error α) =
            read at hOk
        cases read with
        | error fault => cases hOk
        | ok opacity =>
            cases hOk
            exact ⟨rfl, .opacity hName hRead⟩
      · split at hOk
        · rename_i hName
          have hName : a.name = "Transform" := eq_of_beq hName
          have hKeeps :=
            transformValue_keeps env e "Transform" a.value st
          rw [hName, Action.perform_bind] at hOk
          generalize hRead :
            (transformValue env e "Transform" a.value).perform st =
              outcome at hOk hKeeps
          rcases outcome with ⟨fault | m, read⟩
          · cases hOk
          · obtain rfl : st = read := hKeeps
            cases hOk
            exact ⟨rfl, .transform hName hRead⟩
        · cases hOk

/-
  The matrix of a brush is what its attributes give, if they are
  read by a grammar that knows the name `Transform` for that only.
-/
theorem read_givenTransform
    {extend : Extend}
    (hPassed : grammar.passed.contains "Transform" = false)
    (hExtend : grammar.extendName ≠ "Transform")
    (hOk : (read env grammar extend e).perform st = (.ok s, st')) :
    st' = st ∧
      (e.givenTransform env).perform st = (.ok s.matrix, st) := by
  refine Action.foldlM_readLast BrushStyle.matrix ?_ e hOk
  intro s a s' st st' hTake
  rcases takeAttribute_takes hTake with ⟨rfl, hTakes⟩
  refine ⟨rfl, ?_⟩
  cases hTakes with
  | passed hName =>
      rw [if_neg]
      rintro hIs
      rw [hIs, hPassed] at hName
      cases hName
  | extend hName => rw [if_neg fun hIs => hExtend (hName ▸ hIs)]
  | opacity hName _ => rw [if_neg (by rw [hName]; decide)]
  | transform hName hRead => rwa [if_pos hName]

/- The opacity of a brush is what its attributes give, likewise. -/
theorem read_givenOpacity
    {extend : Extend}
    (hPassed : grammar.passed.contains "Opacity" = false)
    (hExtend : grammar.extendName ≠ "Opacity")
    (hOk : (read env grammar extend e).perform st = (.ok s, st')) :
    e.givenOpacity.perform st = (.ok s.opacity, st) := by
  refine
    (Action.foldlM_readLast BrushStyle.opacity ?_ e hOk).2
  intro s a s' st st' hTake
  rcases takeAttribute_takes hTake with ⟨rfl, hTakes⟩
  refine ⟨rfl, ?_⟩
  cases hTakes with
  | passed hName =>
      rw [if_neg]
      rintro hIs
      rw [hIs, hPassed] at hName
      cases hName
  | extend hName => rw [if_neg fun hIs => hExtend (hName ▸ hIs)]
  | opacity hName hRead =>
      rw [if_pos hName, Action.perform_ofExcept, hRead]
  | transform hName _ => rw [if_neg (by rw [hName]; decide)]

end BrushStyle

/- An image brush is what its attributes give. -/
theorem ImageBrush.read_given
    {env : Environment α}
    {e : Element}
    {i : ImageBrush α}
    {st st' : RenderState α}
    (hOk : (read env e).perform st = (.ok i, st')) :
    st' = st ∧
      (e.givenTransform env).perform st = (.ok i.matrix, st) ∧
      (e.givenOpacity).perform st = (.ok i.opacity, st) ∧
      e.readRequired "Viewport" Value.box? = .ok i.viewport ∧
      e.readRequired "Viewbox" Value.box? = .ok i.viewbox ∧
      ∃ source,
        e.required "ImageSource" = .ok source ∧
          i.source =
            PartName.resolve env.source (Text.trimString source) := by
  unfold read at hOk
  rw [Action.perform_bind] at hOk
  generalize hStyle :
    (BrushStyle.read env (.tile ["ImageSource"]) .none e).perform st =
      outcome at hOk
  rcases outcome with ⟨fault | style, styled⟩
  · cases hOk
  · rcases BrushStyle.read_givenTransform (by decide) (by decide) hStyle
      with ⟨rfl, hTransform⟩
    have hOpacity :=
      BrushStyle.read_givenOpacity (by decide) (by decide) hStyle
    dsimp only at hOk
    rw [Action.perform_ofExcept, Prod.mk.injEq] at hOk
    rcases hOk with ⟨hRead, rfl⟩
    rcases Except.ok_of_bind hRead with ⟨source, hSource, hRead⟩
    rcases Except.ok_of_bind hRead with ⟨viewport, hViewport, hRead⟩
    rcases Except.ok_of_bind hRead with ⟨viewbox, hViewbox, hRead⟩
    rcases Except.ok_of_bind hRead with ⟨port, hPort, hRead⟩
    rcases Except.ok_of_bind hRead with ⟨box, hBox, hRead⟩
    generalize hName :
      PartName.resolve env.source (Text.trimString source) = name
      at hRead
    cases hRead
    refine
      ⟨rfl, hTransform, hOpacity, ?_, ?_, source, hSource, hName.symm⟩
    · rw [Element.readRequired, hViewport]
      exact hPort
    · rw [Element.readRequired, hViewbox]
      exact hBox

/- A visual brush is what its attributes give. -/
theorem VisualBrush.read_given
    {env : Environment α}
    {e : Element}
    {v : VisualBrush α}
    {st st' : RenderState α}
    (hOk : (read env e).perform st = (.ok v, st')) :
    st' = st ∧
      (e.givenTransform env).perform st = (.ok v.transform, st) ∧
      e.readRequired "Viewport" Value.box? = .ok v.viewport ∧
      e.readRequired "Viewbox" Value.box? = .ok v.viewbox ∧
      v.width = v.transform.length ⟨v.viewport.width, 0⟩ ∧
      v.height = v.transform.length ⟨0, v.viewport.height⟩ := by
  unfold read at hOk
  rw [Action.perform_bind] at hOk
  generalize hStyle :
    (BrushStyle.read env (.tile ["Opacity", "Visual"]) .none e).perform
      st = outcome at hOk
  rcases outcome with ⟨fault | style, styled⟩
  · cases hOk
  · rcases BrushStyle.read_givenTransform (by decide) (by decide) hStyle
      with ⟨rfl, hTransform⟩
    dsimp only at hOk
    rw [Action.perform_ofExcept, Prod.mk.injEq] at hOk
    rcases hOk with ⟨hRead, rfl⟩
    rcases Except.ok_of_bind hRead with ⟨viewport, hViewport, hRead⟩
    rcases Except.ok_of_bind hRead with ⟨viewbox, hViewbox, hRead⟩
    rcases Except.ok_of_bind hRead with ⟨port, hPort, hRead⟩
    rcases Except.ok_of_bind hRead with ⟨box, hBox, hRead⟩
    cases hRead
    refine ⟨rfl, hTransform, ?_, ?_, rfl, rfl⟩
    · rw [Element.readRequired, hViewport]
      exact hPort
    · rw [Element.readRequired, hViewbox]
      exact hBox

------------------------------------------------------------
-- Elements
------------------------------------------------------------

/- The matrix that an attribute gives, unless it gives none. -/
def matrixOr
    (m : Matrix α)
    (a : Attribute) : Matrix α :=
  if a.name = "Matrix" then (Value.matrix? a.value).getD m else m

namespace Markup.Elements

/- The matrix that the last of some transformations gives. -/
def lastMatrix : Elements → Matrix α → Matrix α
| none, m => m
| element _ attributes inner rest, m =>
    rest.lastMatrix (inner.lastMatrix (attributes.foldl matrixOr m))

/- The names of the elements inside a brush with frames of their own. -/
def owners : List String :=
  "FixedPage.Resources" :: contentNames

/-
  The transformation that the last element of a property gives.
  What stands inside of content says nothing about its brush.
-/
def lastTransform
    (property : String) : Elements → Matrix α → Matrix α
| none, m => m
| element name _ inner rest, m =>
    rest.lastTransform property
      (if name = property then inner.lastMatrix .identity
      else if name ∈ owners then m
      else inner.lastTransform property m)

end Markup.Elements

/- Attributes of a matrix that are known give it. -/
theorem foldlM_takeMatrixAttribute
    {e : Element}
    {attributes : List Attribute}
    {m m' : Matrix α}
    (hOk : attributes.foldlM (takeMatrixAttribute e) m = .ok m') :
    m' = attributes.foldl matrixOr m := by
  induction attributes generalizing m with
  | nil =>
      cases hOk
      rfl
  | cons a rest ih =>
      rw [List.foldlM_cons] at hOk
      rcases Except.ok_of_bind hOk with ⟨m₁, hTake, hRest⟩
      have hFirst : m₁ = matrixOr m a := by
        unfold takeMatrixAttribute at hTake
        unfold matrixOr
        split at hTake
        · rw [if_pos (eq_of_beq ‹_›)]
          unfold Element.read at hTake
          cases hRead : (Value.matrix? a.value : Option (Matrix α)) with
          | some read =>
              rw [hRead] at hTake
              cases hTake
              rfl
          | none =>
              rw [hRead] at hTake
              cases hTake
        · rename_i hName
          rw [if_neg fun hIs => hName (by rw [hIs]; rfl)]
          split at hTake <;> cases hTake
          rfl
      rw [List.foldl_cons, ← hFirst]
      exact ih hRest

------------------------------------------------------------
-- Taking elements
------------------------------------------------------------

namespace Markup.Elements

variable {env : Environment α} {handler : StartHandler α}
variable {lookup : BrushLookup α}
variable {name : String} {attributes : List Attribute}
variable {inner rest : Elements} {frame frame' : Frame α}
variable {st st' : RenderState α}

/- An element that is taken has started. -/
theorem start_of_take
    (hOk :
      ((element name attributes inner rest).take env handler
        frame).perform st = (.ok frame', st')) :
    ∃ next child? opened,
      (handler frame ⟨.nowhere, name, attributes⟩).perform st =
        (.ok (next, child?), opened) := by
  rcases hStart :
    (handler frame ⟨.nowhere, name, attributes⟩).perform st with
    ⟨fault | ⟨next, child?⟩, opened⟩
  · exact absurd hOk (take_ne_ok hStart)
  · exact ⟨next, child?, opened, rfl⟩

/-
  What has happened when an element without a frame of its own
  has been taken, and the others after it.
-/
theorem take_passed
    {next : Frame α}
    {opened : RenderState α}
    (hStart :
      (handler frame ⟨.nowhere, name, attributes⟩).perform st =
        (.ok (next, .none), opened))
    (hOk :
      ((element name attributes inner rest).take env handler
        frame).perform st = (.ok frame', st')) :
    ∃ last full,
      (inner.take env handler next).perform opened =
          (.ok last, full) ∧
        (last.receive env name .none >>=
            rest.take env handler).perform full =
          (.ok frame', st') := by
  rw [take, Action.perform_bind, Action.perform_onError, hStart] at hOk
  dsimp only at hOk
  rw [Action.perform_bind] at hOk
  rcases hInner : (inner.take env handler next).perform opened with
    ⟨fault | last, full⟩
  · rw [hInner] at hOk
    cases hOk
  · rw [hInner] at hOk
    exact ⟨last, full, rfl, hOk⟩

/- A matrix that takes transformations is the last of them. -/
theorem take_matrix
    (elements : Elements)
    {m : Matrix α}
    (hOk :
      (elements.take env (startElement env lookup)
        (.matrix m)).perform st = (.ok frame', st')) :
    frame' = .matrix (elements.lastMatrix m) ∧ st' = st := by
  induction elements generalizing m frame' st st' with
  | none =>
      cases hOk
      exact ⟨rfl, rfl⟩
  | element name attributes inner rest ihInner ihRest =>
      rcases start_of_take hOk with ⟨next, child?, opened, hStart⟩
      have hFrame := hStart
      rw [startElement, startStored, Action.perform_bind,
        Action.perform_ofExcept] at hFrame
      cases hMatrix : startMatrix ⟨.nowhere, name, attributes⟩ m with
      | error fault =>
          rw [hMatrix] at hFrame
          cases hFrame
      | ok m₁ =>
          rw [hMatrix] at hFrame
          cases hFrame
          have hGiven : m₁ = attributes.foldl matrixOr m := by
            unfold startMatrix at hMatrix
            split at hMatrix
            · exact foldlM_takeMatrixAttribute hMatrix
            · cases hMatrix
          rcases take_passed hStart hOk with
            ⟨last, full, hInner, hRest⟩
          rcases ihInner hInner with ⟨rfl, rfl⟩
          rcases ihRest hRest with ⟨rfl, rfl⟩
          rw [lastMatrix, hGiven]
          exact ⟨rfl, rfl⟩

/- An image brush that takes elements is given the last transform. -/
theorem take_image
    (elements : Elements)
    {i : ImageBrush α}
    (hOk :
      (elements.take env (startElement env lookup)
        (.image i)).perform st = (.ok frame', st')) :
    frame' =
        .image { i with
          matrix :=
            elements.lastTransform "ImageBrush.Transform" i.matrix } ∧
      st' = st := by
  induction elements generalizing i frame' st st' with
  | none =>
      cases hOk
      exact ⟨rfl, rfl⟩
  | element name attributes inner rest _ ihRest =>
      rcases start_of_take hOk with ⟨next, child?, opened, hStart⟩
      have hFrame := hStart
      rw [startElement, Action.perform_bind, Action.perform_ofExcept,
        ImageBrush.startChild] at hFrame
      by_cases hName : name = "ImageBrush.Transform"
      · rw [if_pos (by simpa using hName)] at hFrame
        cases hFrame
        rcases take_opened hStart hOk with
          ⟨last, full, product, done, hInner, hFinish, hRest⟩
        rcases take_matrix inner hInner with ⟨rfl, rfl⟩
        cases hFinish
        subst hName
        rcases ihRest hRest with ⟨rfl, rfl⟩
        rw [lastTransform, if_pos rfl]
        exact ⟨rfl, rfl⟩
      · rw [if_neg (by simpa using hName)] at hFrame
        cases hFrame

end Markup.Elements

------------------------------------------------------------
-- Elements inside of a visual brush
------------------------------------------------------------

/- A frame that has just been opened is balanced on its own. -/
theorem Frame.Opened.balanced
    {child : Frame α}
    {st st' : RenderState α}
    (hOpened : child.Opened OnLevel st st') :
    Stack.Balanced child.kind st.surface [⟨child, 0⟩] st' where
  grown := .root rfl
  consistent := by simpa using hOpened.consistent
  inside := by
    have hInside := hOpened.inside (.level (.refl false st.surface))
    simpa [Stack.brackets] using hInside

/-
  What an element that starts inside of a visual brush is to the
  brush: it gives the transformation, it has a frame of its own
  that is balanced, or it is passed over.
-/
inductive VisualChild
    (name : String)
    (st : RenderState α) :
    Option (Frame α) → RenderState α → Prop
| transform
    (hName : name = "VisualBrush.Transform") :
    VisualChild name st (some (.matrix .identity)) st
| owner
    {child : Frame α}
    {st' : RenderState α}
    (hName : name ∈ Elements.owners)
    (hKind : child.kind ∈ [.canvas, .path, .glyphs, .resources])
    (hBalanced :
      Stack.Balanced child.kind st.surface [⟨child, 0⟩] st') :
    VisualChild name st (some child) st'
| passed
    (hTransform : name ≠ "VisualBrush.Transform")
    (hName : name ∉ Elements.owners) :
    VisualChild name st none st

section

variable {env : Environment α} {lookup : BrushLookup α}
variable {e : Element} {f : ContentFrame α} {v : VisualBrush α}
variable {st st' : RenderState α}

/- An element of content starts inside of a visual brush. -/
theorem startContent_visualChild
    (hLookup : ∀ key, (lookup key).Keeps (OnLevel true))
    {child? : Option (Frame α)}
    (hTransform : e.name ≠ "VisualBrush.Transform")
    (hResources : e.name ≠ "FixedPage.Resources")
    (hOk :
      (startContent env lookup e).perform st = (.ok child?, st')) :
    VisualChild e.name st child? st' := by
  have hOutcome := startContent_outcome (R := OnLevel) env hLookup e st
  rw [hOk] at hOutcome
  by_cases hName : e.name ∈ contentNames
  · rcases startContent_opens hName hOk with ⟨child, rfl⟩
    have hOpened : child.Opened OnLevel st st' := hOutcome
    refine .owner (.tail _ hName) ?_ hOpened.balanced
    have hDraws := hOpened.draws
    revert hDraws
    cases child.kind <;> decide
  · have hOther : e.name ∉ Elements.owners := by
      rw [Elements.owners, List.mem_cons, not_or]
      exact ⟨hResources, hName⟩
    unfold startContent at hOk
    split at hOk
    case h_4 =>
      split at hOk <;> cases hOk
      exact .passed hTransform hOther
    all_goals
      rename_i hIs
      exact absurd (by rw [hIs]; decide) hName

/- An element starts inside of a visual brush, which stays known. -/
theorem ContentFrame.startChild_visualChild
    (hLookup : ∀ key, (lookup key).Keeps (OnLevel true))
    {frame' : Frame α}
    {child? : Option (Frame α)}
    (hVisual : f.visual? = some v)
    (hOk :
      (startElement env lookup (.content f) e).perform st =
        (.ok (frame', child?), st')) :
    ∃ f' : ContentFrame α,
      frame' = .content f' ∧ f'.visual? = some v ∧
        VisualChild e.name st child? st' := by
  have hSome : f.visual?.isSome = true := by rw [hVisual]; rfl
  rw [startElement, ContentFrame.startChild] at hOk
  split at hOk
  · rename_i hName
    cases hOk
    exact
      ⟨f, rfl, hVisual,
        .passed (by rw [hName]; decide) (by rw [hName]; decide)⟩
  · rename_i hName
    cases hOk
    refine ⟨_, rfl, hVisual, .owner ?_ (by simp) ?_⟩
    · rw [hName]
      decide
    · exact
        (Stack.Balanced.start (.resources false) 0 rfl rfl rfl
          st).sameSurface rfl
  · rename_i hName
    rw [if_pos hSome] at hOk
    cases hOk
    exact
      ⟨f, rfl, hVisual,
        .passed (by rw [hName]; decide) (by rw [hName]; decide)⟩
  · rename_i hName
    rw [if_pos hSome] at hOk
    cases hOk
    exact ⟨f, rfl, hVisual, .transform hName⟩
  · rename_i hResources _ hTransform
    dsimp only at hOk
    rw [bind_assoc, Action.perform_bind] at hOk
    rcases hContent : (startContent env lookup e).perform st with
      ⟨fault | opened?, opened⟩
    · rw [hContent] at hOk
      cases hOk
    · rw [hContent] at hOk
      cases hOk
      exact
        ⟨f, rfl, hVisual,
          startContent_visualChild hLookup hTransform hResources
            hContent⟩

omit [Scalar α] in
/- An element that ends without a product leaves the brush. -/
theorem ContentFrame.endChild_none
    (f : ContentFrame α)
    (name : String)
    (st : RenderState α) :
    (f.endChild name .none st).1.visual? = f.visual? ∧
      (f.endChild name .none st).2.surface = st.surface := by
  unfold ContentFrame.endChild
  split
  · exact ⟨rfl, rfl⟩
  · rename_i hProduct
    cases hProduct
  · exact ⟨rfl, rfl⟩

omit [Scalar α] in
/- The end of an element with a frame of its own goes unnoticed. -/
theorem ContentFrame.endChild_owner
    {name : String}
    (hName : name ∈ Elements.owners)
    (product : Product α)
    (st : RenderState α) :
    f.endChild name product st = (f, st) := by
  simp only [Elements.owners, contentNames, List.mem_cons,
    List.not_mem_nil, or_false] at hName
  rcases hName with rfl | rfl | rfl | rfl <;> rfl

end

namespace Markup.Elements

variable {env : Environment α} {lookup : BrushLookup α}

/- A frame that is balanced on its own is finished on its level. -/
theorem take_level
    (hLookup : ∀ key, (lookup key).Keeps (OnLevel true))
    (elements : Elements)
    {child last : Frame α}
    {product : Product α}
    {base : Surface α}
    {opened full done : RenderState α}
    (hKind : child.kind ∈ [.canvas, .path, .glyphs, .resources])
    (hBalanced : Stack.Balanced child.kind base [⟨child, 0⟩] opened)
    (hTake :
      (elements.take env (startElement env lookup) child).perform
        opened = (.ok last, full))
    (hFinish : (last.finish env).perform full = (.ok product, done)) :
    Surface.Level false base done.surface := by
  have hRoot : child.kind ≠ .geometry ∧ child.kind ≠ .visual := by
    revert hKind
    cases child.kind <;> decide
  have hInv :=
    balanced_invariant env hLookup child.kind hRoot.1 hRoot.2 base
  have hTaken := hInv.take elements child hBalanced
  rw [hTake] at hTaken
  exact
    (hInv.root ⟨last, 0⟩ full done product hTaken
      hFinish).inside.level_of_nil

/-
  A visual brush that takes elements is given the last transform,
  and the surface is on the same level after each of them, by
  induction on the elements.
-/
theorem take_visual
    (hLookup : ∀ key, (lookup key).Keeps (OnLevel true))
    (elements : Elements)
    {f : ContentFrame α}
    {v : VisualBrush α}
    {frame' : Frame α}
    {st st' : RenderState α}
    (hVisual : f.visual? = some v)
    (hOk :
      (elements.take env (startElement env lookup)
        (.content f)).perform st = (.ok frame', st')) :
    ∃ f' : ContentFrame α,
      frame' = .content f' ∧
        f'.visual? =
          some { v with
            transform :=
              elements.lastTransform "VisualBrush.Transform"
                v.transform } ∧
        Surface.Level false st.surface st'.surface := by
  induction elements generalizing f v frame' st st' with
  | none =>
      cases hOk
      exact ⟨f, rfl, hVisual, .refl false _⟩
  | element name attributes inner rest ihInner ihRest =>
      rcases start_of_take hOk with ⟨next, child?, opened, hStart⟩
      rcases
        ContentFrame.startChild_visualChild hLookup hVisual hStart with
        ⟨f₁, rfl, hVisual₁, hChild⟩
      cases hChild with
      | transform hName =>
          rcases take_opened hStart hOk with
            ⟨last, full, product, done, hInner, hFinish, hRest⟩
          rcases take_matrix inner hInner with ⟨rfl, hFull⟩
          cases hFinish
          subst hName
          have hVisual₂ :
              (f₁.endChild "VisualBrush.Transform"
                  (.matrix (inner.lastMatrix .identity))
                  full).1.visual? =
                some { v with
                  transform := inner.lastMatrix .identity } := by
            change f₁.visual?.map _ = _
            rw [hVisual₁]
            rfl
          rcases ihRest hVisual₂ hRest with
            ⟨f', hFrame, hVisual', hLevel⟩
          refine ⟨f', hFrame, ?_, hFull ▸ hLevel⟩
          rw [lastTransform, if_pos rfl]
          exact hVisual'
      | owner hName hKind hBalanced =>
          change name ∈ owners at hName
          rcases take_opened hStart hOk with
            ⟨last, full, product, done, hInner, hFinish, hRest⟩
          have hLevel :=
            inner.take_level hLookup hKind hBalanced hInner hFinish
          have hOther : name ≠ "VisualBrush.Transform" := by
            rintro rfl
            exact absurd hName (by decide)
          have hEnd := f₁.endChild_owner hName product done
          change
            Action.perform
              (rest.take env (startElement env lookup)
                (.content (f₁.endChild name product done).1))
              (f₁.endChild name product done).2 = _ at hRest
          rw [hEnd] at hRest
          rcases ihRest hVisual₁ hRest with
            ⟨f', hFrame, hVisual', hLater⟩
          refine ⟨f', hFrame, ?_, hLevel.trans hLater⟩
          rw [lastTransform, if_neg hOther, if_pos hName]
          exact hVisual'
      | passed hTransform hName =>
          rcases take_passed hStart hOk with
            ⟨last, full, hInner, hRest⟩
          rcases ihInner hVisual₁ hInner with
            ⟨f₂, rfl, hVisual₂, hLevel⟩
          rcases f₂.endChild_none name full with ⟨hSame, hSurface⟩
          rcases ihRest (hSame.trans hVisual₂) hRest with
            ⟨f', hFrame, hVisual', hLater⟩
          change
            Surface.Level false (f₂.endChild name .none full).2.surface
              st'.surface at hLater
          rw [hSurface] at hLater
          refine ⟨f', hFrame, ?_, hLevel.trans hLater⟩
          rw [lastTransform, if_neg hTransform, if_neg hName]
          exact hVisual'

end Markup.Elements

end FixedPage
