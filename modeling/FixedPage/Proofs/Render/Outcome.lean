import FixedPage.Proofs.Mirror.Brush
import FixedPage.Proofs.Render.Viewport

/-
  This file says what a brush comes out as, in terms of what its
  markup gives. It does not matter whether the brush is written
  inside of a property element or looked up under the key of
  markup that is read as the same elements.

  Main declarations:
    * `Elements.gradientTransform`
    * `Elements.take_gradient`
    * `BrushOutcome`
    * `BrushOutcome.gradient`
    * `BrushOutcome.image`
    * `BrushOutcome.visual`
-/

namespace FixedPage

open Markup

variable {α : Type} [Scalar α]

------------------------------------------------------------
-- Gradients
------------------------------------------------------------

namespace Markup.Elements

/- The names of the elements that transform a gradient. -/
def gradientTransforms : List String :=
  ["LinearGradientBrush.Transform", "RadialGradientBrush.Transform"]

/-
  The transformation that the last element of a property gives to
  a gradient. Either kind of gradient knows the property of both,
  also inside of what it passes over.
-/
def gradientTransform : Elements → Matrix α → Matrix α
| none, m => m
| element name _ inner rest, m =>
    rest.gradientTransform
      (if name ∈ gradientTransforms then inner.lastMatrix .identity
      else inner.gradientTransform m)

end Markup.Elements

namespace GradientBrush

/-
  What an element that starts inside of a gradient is to it: it
  gives the transformation, or at most a stop.
-/
inductive Child
    (name : String)
    (st : RenderState α)
    (g : GradientBrush α) :
    GradientBrush α → Option (Frame α) → RenderState α → Prop
| transform
    (hName : name ∈ Elements.gradientTransforms) :
    Child name st g g (some (.matrix .identity)) st
| passed
    (hName : name ∉ Elements.gradientTransforms)
    (stops : List (GradientStop α))
    (st' : RenderState α) :
    Child name st g { g with stops := stops } none st'

/- An element starts inside of a gradient. -/
theorem startChild_child
    {env : Environment α}
    {g g' : GradientBrush α}
    {e : Element}
    {child? : Option (Frame α)}
    {st st' : RenderState α}
    (hOk :
      (g.startChild env e).perform st = (.ok (g', child?), st')) :
    Child e.name st g g' child? st' := by
  unfold startChild at hOk
  split at hOk
  case h_5 hName =>
    rw [Action.perform_bind] at hOk
    rcases hStop : (readStop env e).perform st with ⟨fault | stop?, after⟩
    · rw [hStop] at hOk
      cases hOk
    · rw [hStop] at hOk
      cases hOk
      exact .passed (by rw [hName]; decide) _ _
  case h_6 => cases hOk
  all_goals
    rename_i hName
    cases hOk
  · exact .passed (by rw [hName]; decide) _ _
  · exact .passed (by rw [hName]; decide) _ _
  · exact .transform (by rw [hName]; decide)
  · exact .transform (by rw [hName]; decide)

/- A gradient is what its attributes give. -/
theorem read_given
    {env : Environment α}
    {course : List String}
    {shapeOf : Element → Except Error (GradientShape α)}
    {e : Element}
    {g : GradientBrush α}
    {st st' : RenderState α}
    (hPassed :
      (BrushGrammar.gradient course).passed.contains "Transform" =
        false)
    (hOk : (read env course shapeOf e).perform st = (.ok g, st')) :
    st' = st ∧
      (e.givenTransform env).perform st = (.ok g.matrix, st) ∧
      shapeOf e = .ok g.shape := by
  unfold read at hOk
  rw [Action.perform_bind] at hOk
  generalize hStyle :
    (BrushStyle.read env (.gradient course) .pad e).perform st =
      outcome at hOk
  rcases outcome with ⟨fault | style, styled⟩
  · cases hOk
  · have hExtend :
        (BrushGrammar.gradient course).extendName ≠ "Transform" :=
      show "SpreadMethod" ≠ "Transform" by decide
    rcases BrushStyle.read_givenTransform hPassed hExtend hStyle with
      ⟨rfl, hTransform⟩
    dsimp only at hOk
    rw [Action.perform_bind, Action.perform_ofExcept] at hOk
    cases hShape : shapeOf e with
    | error fault =>
        rw [hShape] at hOk
        cases hOk
    | ok shape =>
        rw [hShape] at hOk
        cases hOk
        exact ⟨rfl, hTransform, rfl⟩

end GradientBrush

/- A gradient that takes elements is given the last transform. -/
theorem Markup.Elements.take_gradient
    {env : Environment α}
    {lookup : BrushLookup α}
    (elements : Elements)
    {g : GradientBrush α}
    {frame' : Frame α}
    {st st' : RenderState α}
    (hOk :
      (elements.take env (startElement env lookup)
        (.gradient g)).perform st = (.ok frame', st')) :
    ∃ stops,
      frame' =
        .gradient { g with
          matrix := elements.gradientTransform g.matrix
          stops := stops } := by
  induction elements generalizing g frame' st st' with
  | none =>
      cases hOk
      exact ⟨g.stops, rfl⟩
  | element name attributes inner rest ihInner ihRest =>
      rcases start_of_take hOk with ⟨next, child?, opened, hStart⟩
      have hFrame := hStart
      rw [startElement, Action.perform_bind] at hFrame
      rcases hChild :
        (g.startChild env ⟨.nowhere, name, attributes⟩).perform st with
        ⟨fault | ⟨g₁, opened?⟩, after⟩
      · rw [hChild] at hFrame
        cases hFrame
      · rw [hChild] at hFrame
        cases hFrame
        cases GradientBrush.startChild_child hChild with
        | transform hName =>
            rcases take_opened hStart hOk with
              ⟨last, full, product, done, hInner, hFinish, hRest⟩
            rcases take_matrix inner hInner with ⟨rfl, -⟩
            cases hFinish
            change name ∈ gradientTransforms at hName
            have hEnd :
                g.endChild name (.matrix (inner.lastMatrix .identity)) =
                  { g with matrix := inner.lastMatrix .identity } := by
              simp only [gradientTransforms, List.mem_cons,
                List.not_mem_nil, or_false] at hName
              rcases hName with rfl | rfl <;> rfl
            change
              (rest.take env (startElement env lookup)
                (.gradient (g.endChild name _))).perform full = _
              at hRest
            rw [hEnd] at hRest
            rcases ihRest hRest with ⟨stops, rfl⟩
            rw [gradientTransform, if_pos hName]
            exact ⟨stops, rfl⟩
        | passed hName stops =>
            rcases take_passed hStart hOk with
              ⟨last, full, hInner, hRest⟩
            rcases ihInner hInner with ⟨stops₁, rfl⟩
            rcases ihRest hRest with ⟨stops₂, rfl⟩
            change name ∉ gradientTransforms at hName
            rw [gradientTransform, if_neg hName]
            exact ⟨stops₂, rfl⟩

------------------------------------------------------------
-- Outcomes
------------------------------------------------------------

/-
  What the elements of a brush come out as in a state: they are fed
  to the brush of a property element, whatever it has been before,
  or they are looked up under the key of markup that is read as
  them.
-/
inductive BrushOutcome
    (env : Environment α)
    (elements : Elements)
    (st : RenderState α) :
    Option (Pattern α) → RenderState α → Prop
| written
    {items : List (Location × Event)}
    {earlier? pattern? : Option (Pattern α)}
    {owner depth deep : Nat}
    {below others : List (Entry α)}
    {top : Entry α}
    {full st' : RenderState α}
    (hTags : tagsOf items = elements.tags)
    (hOwner : owner ≤ depth)
    (hFed :
      Stack.feedAll env (startElement env (pageBrush env))
          ⟨⟨.brush earlier?, owner⟩ :: below, depth⟩ st items =
        ⟨.ok none, ⟨top :: others, deep⟩, full⟩)
    (hFinish :
      (top.frame.finish env).perform full =
        (.ok (.pattern pattern?), st')) :
    BrushOutcome env elements st pattern? st'
| stored
    {key markup root : String}
    {first last : Location}
    {body : List (Location × Event)}
    {pattern? : Option (Pattern α)}
    {st' : RenderState α}
    (hStored : st.scope.get? key = some markup)
    (hMarkup :
      readText env.source markup =
        .ok (first, .startTag root [])
          :: (body.map .ok ++ [.ok (last, .endTag root)]))
    (hBody : tagsOf body = elements.tags)
    (hLookup :
      (pageBrush env key).perform st = (.ok pattern?, st')) :
    BrushOutcome env elements st pattern? st'

namespace BrushOutcome

variable {env : Environment α} {name : String}
variable {attributes : List Attribute} {inner : Elements}
variable {pattern? : Option (Pattern α)} {st st' : RenderState α}

/- Elements that are fed to a frame for brushes are taken by it. -/
theorem take_of_feedAll
    {elements : Elements}
    {items : List (Location × Event)}
    {earlier? : Option (Pattern α)}
    {owner depth : Nat}
    {below : List (Entry α)}
    {next : Stack α}
    {full : RenderState α}
    (hTags : tagsOf items = elements.tags)
    (hOwner : owner ≤ depth)
    (hFed :
      Stack.feedAll env (startElement env (pageBrush env))
          ⟨⟨.brush earlier?, owner⟩ :: below, depth⟩ st items =
        ⟨.ok none, next, full⟩) :
    ∃ pattern?,
      next = ⟨⟨.brush pattern?, owner⟩ :: below, depth⟩ ∧
        (elements.take env (startElement env (pageBrush env))
          (.brush earlier?)).perform st =
            (.ok (.brush pattern?), full) := by
  have hTakes :=
    Stack.feedAll_take (pageElement_alike env .zero true) hTags
      (.brush earlier?) hOwner below st
  rcases hTaken :
    (elements.take env (startElement env (pageBrush env))
      (.brush earlier?)).perform st with
    ⟨fault | frame, mid⟩
  · rw [hTaken] at hTakes
    rcases hTakes.eq_error with ⟨_, _, _, _, hError, _, _⟩
    rw [hError] at hFed
    cases hFed
  · rw [hTaken] at hTakes
    rcases take_brush elements hTaken with ⟨pattern?, rfl⟩
    rw [hTakes.eq_ok] at hFed
    cases hFed
    exact ⟨pattern?, rfl, rfl⟩

/- Elements that can be fed to a frame for brushes come out. -/
theorem of_feedAll
    {elements : Elements}
    {items : List (Location × Event)}
    {earlier? : Option (Pattern α)}
    {owner depth : Nat}
    {below : List (Entry α)}
    {next : Stack α}
    {full : RenderState α}
    (hTags : tagsOf items = elements.tags)
    (hOwner : owner ≤ depth)
    (hFed :
      Stack.feedAll env (startElement env (pageBrush env))
          ⟨⟨.brush earlier?, owner⟩ :: below, depth⟩ st items =
        ⟨.ok none, next, full⟩) :
    ∃ pattern?,
      next = ⟨⟨.brush pattern?, owner⟩ :: below, depth⟩ ∧
        BrushOutcome env elements st pattern? full := by
  rcases take_of_feedAll hTags hOwner hFed with ⟨pattern?, rfl, -⟩
  exact ⟨pattern?, rfl, .written hTags hOwner hFed rfl⟩

/- Either way the elements have been taken by a frame for brushes. -/
theorem take
    {elements : Elements}
    (hOutcome : BrushOutcome env elements st pattern? st') :
    ∃ earlier?,
      (elements.take env (startElement env (pageBrush env))
        (.brush earlier?)).perform st = (.ok (.brush pattern?), st') := by
  cases hOutcome with
  | @written items earlier? _ _ _ _ _ _ _ _ _ hTags hOwner hFed
      hFinish =>
      rcases take_of_feedAll hTags hOwner hFed with
        ⟨next?, hNext, hTaken⟩
      cases hNext
      cases hFinish
      exact ⟨earlier?, hTaken⟩
  | stored hStored hMarkup hBody hLookup =>
      refine ⟨none, ?_⟩
      rcases pageBrush_written hStored hMarkup hBody with
        ⟨hResult, hState⟩
      rw [hLookup] at hResult hState
      unfold writtenBrush at hResult hState
      dsimp only at hResult hState
      rw [Action.perform_bind] at hResult hState
      rcases hTaken :
        (elements.take env (startElement env (pageBrush env))
          (.brush none)).perform st with
        ⟨fault | frame, mid⟩
      · rw [hTaken] at hResult
        cases hResult
      · rcases take_brush elements hTaken with ⟨next?, rfl⟩
        rw [hTaken] at hResult hState
        cases hResult
        cases hState
        rfl

/-
  A brush that owns a frame has been read, its elements have been
  taken by the frame, and it is resolved when it ends.
-/
theorem opened
    {β : Type}
    {read : Action α β}
    {frameOf : β → Frame α}
    (hBrush :
      ∀ earlier?,
        startBrush env earlier? ⟨.nowhere, name, attributes⟩ =
          (read >>= fun b => pure (earlier?, some (frameOf b))))
    (hOutcome :
      BrushOutcome env (.element name attributes inner .none) st
        pattern? st') :
    ∃ b after last full product done earlier?,
      read.perform st = (.ok b, after) ∧
        (inner.take env (startElement env (pageBrush env))
            (frameOf b)).perform after = (.ok last, full) ∧
        (last.finish env).perform full = (.ok product, done) ∧
        endBrush env earlier? product done = (pattern?, st') := by
  rcases hOutcome.take with ⟨earlier?, hTake⟩
  rcases Elements.start_of_take hTake with
    ⟨next, child?, after, hStart⟩
  rcases BrushLayout.brush_of_start (hBrush earlier?) hStart with
    ⟨b, hRead, rfl, rfl⟩
  rcases Elements.take_opened hStart hTake with
    ⟨last, full, product, done, hInner, hFinish, hRest⟩
  refine
    ⟨b, after, last, full, product, done, earlier?, hRead, hInner,
      hFinish, ?_⟩
  rcases hEnd : endBrush env earlier? product done with ⟨out?, ended⟩
  change
    (Except.ok
        (Frame.brush (endBrush env earlier? product done).1),
      (endBrush env earlier? product done).2) = _ at hRest
  rw [hEnd] at hRest
  cases hRest
  rfl

/- What a brush comes out as that is read as a gradient. -/
theorem gradient
    (course : List String)
    (shapeOf : Element → Except Error (GradientShape α))
    (hBrush :
      ∀ earlier?,
        startBrush env earlier? ⟨.nowhere, name, attributes⟩ =
          (GradientBrush.read env course shapeOf
              ⟨.nowhere, name, attributes⟩ >>=
            fun g => pure (earlier?, some (.gradient g))))
    (hPassed :
      (BrushGrammar.gradient course).passed.contains "Transform" =
        false)
    (hOutcome :
      BrushOutcome env (.element name attributes inner .none) st
        pattern? st') :
    ∃ (g : GradientBrush α) (given : Matrix α),
      ((Element.givenTransform env
            ⟨.nowhere, name, attributes⟩).perform st).1 = .ok given ∧
        g.matrix = inner.gradientTransform given ∧
        shapeOf ⟨.nowhere, name, attributes⟩ = .ok g.shape ∧
        pattern? = g.pattern? := by
  rcases hOutcome.opened hBrush with
    ⟨g, after, last, full, product, done, earlier?, hRead, hInner,
      hFinish, hEnd⟩
  rcases GradientBrush.read_given hPassed hRead with
    ⟨rfl, hGiven, hShape⟩
  rcases inner.take_gradient hInner with ⟨stops, rfl⟩
  cases hFinish
  let laid : GradientBrush α :=
    { g with
      matrix := inner.gradientTransform g.matrix
      stops := stops }
  exact
    ⟨laid, g.matrix, congrArg Prod.fst hGiven, rfl, hShape,
      congrArg Prod.fst hEnd.symm⟩

/- What a gradient along a line comes out as. -/
theorem linear
    (hOutcome :
      BrushOutcome env
        (.element "LinearGradientBrush" attributes inner .none) st
        pattern? st') :
    ∃ (g : GradientBrush α) (given : Matrix α),
      ((Element.givenTransform env
            ⟨.nowhere, "LinearGradientBrush", attributes⟩).perform
          st).1 = .ok given ∧
        g.matrix = inner.gradientTransform given ∧
        GradientShape.readLinear
            ⟨.nowhere, "LinearGradientBrush", attributes⟩ =
          .ok g.shape ∧
        pattern? = g.pattern? :=
  hOutcome.gradient ["StartPoint", "EndPoint"]
    GradientShape.readLinear (fun _ => rfl) (by decide)

/- What a gradient between ellipses comes out as. -/
theorem radial
    (hOutcome :
      BrushOutcome env
        (.element "RadialGradientBrush" attributes inner .none) st
        pattern? st') :
    ∃ (g : GradientBrush α) (given : Matrix α),
      ((Element.givenTransform env
            ⟨.nowhere, "RadialGradientBrush", attributes⟩).perform
          st).1 = .ok given ∧
        g.matrix = inner.gradientTransform given ∧
        GradientShape.readRadial
            ⟨.nowhere, "RadialGradientBrush", attributes⟩ =
          .ok g.shape ∧
        pattern? = g.pattern? :=
  hOutcome.gradient ["GradientOrigin", "Center", "RadiusX", "RadiusY"]
    GradientShape.readRadial (fun _ => rfl) (by decide)

/- What an image brush comes out as. -/
theorem image
    (hOutcome :
      BrushOutcome env (.element "ImageBrush" attributes inner .none)
        st pattern? st')
    {l : BrushLayout α}
    (hLayout :
      l.Describes env st ⟨.nowhere, "ImageBrush", attributes⟩ inner) :
    ∃ (i : ImageBrush α) (full : RenderState α),
      i.viewport = l.viewport ∧ i.matrix = l.transform ∧
        pattern? = (i.resolve env full).1 := by
  have hBrush :
      ∀ earlier?,
        startBrush env earlier? ⟨.nowhere, "ImageBrush", attributes⟩ =
          (ImageBrush.read env ⟨.nowhere, "ImageBrush", attributes⟩ >>=
            fun i => pure (earlier?, some (.image i))) :=
    fun _ => rfl
  rcases hOutcome.opened hBrush with
    ⟨i, after, last, full, product, done, earlier?, hRead, hInner,
      hFinish, hEnd⟩
  rcases ImageBrush.read_given hRead with
    ⟨rfl, hGiven, -, hViewport, -, -⟩
  rcases inner.take_image hInner with ⟨rfl, rfl⟩
  cases hFinish
  have hMatrix : i.matrix = l.given := by
    have hBoth := hLayout.given
    rw [hGiven] at hBoth
    exact Except.ok.inj hBoth
  let laid : ImageBrush α :=
    { i with
      matrix := inner.lastTransform "ImageBrush.Transform" i.matrix }
  refine
    ⟨laid, full, Except.ok.inj (hViewport.symm.trans hLayout.viewport),
      ?_, congrArg Prod.fst hEnd.symm⟩
  rw [hLayout.transform, ← hMatrix]
  rfl

/- What a visual brush comes out as. -/
theorem visual
    (hOutcome :
      BrushOutcome env (.element "VisualBrush" attributes inner .none)
        st pattern? st')
    {l : BrushLayout α}
    (hLayout :
      l.Describes env st ⟨.nowhere, "VisualBrush", attributes⟩ inner) :
    ∃ v : VisualBrush α,
      v.viewport = l.viewport ∧ v.transform = l.transform ∧
        pattern? =
          some
            (v.place
              ⟨.layer (.group st.surface.nextGroup), .none,
                st.surface.ctm⟩) := by
  have hBrush :
      ∀ earlier?,
        startBrush env earlier? ⟨.nowhere, "VisualBrush", attributes⟩ =
          (VisualBrush.begin env
              ⟨.nowhere, "VisualBrush", attributes⟩ >>=
            fun v => pure (earlier?, some (.content ⟨some v, 0⟩))) :=
    fun _ => rfl
  rcases hOutcome.opened hBrush with
    ⟨v, after, last, full, product, done, earlier?, hBegun, hInner,
      hFinish, hEnd⟩
  rcases VisualBrush.begin_ok env hBegun with ⟨hRead, rfl⟩
  rcases VisualBrush.read_given hRead with
    ⟨-, hTransform, hViewport, -, -, -⟩
  have hLookup :
      ∀ key, (pageBrush env key).Keeps (OnLevel true) :=
    fun key => (storedBrush_onLevel env _ key).weaken
  rcases inner.take_visual hLookup rfl hInner with
    ⟨f, rfl, hVisual, hLevel⟩
  have hMatrix : v.transform = l.given := by
    have hBoth := hLayout.given
    rw [hTransform] at hBoth
    exact Except.ok.inj hBoth
  let laid : VisualBrush α :=
    { v with
      transform :=
        inner.lastTransform "VisualBrush.Transform" v.transform }
  refine
    ⟨laid, Except.ok.inj (hViewport.symm.trans hLayout.viewport), ?_, ?_⟩
  · rw [hLayout.transform, ← hMatrix]
    rfl
  · rw [Frame.finish, Action.perform_ofEffect, ContentFrame.finish,
      hVisual] at hFinish
    cases hFinish
    rw [← VisualBrush.resolve_openGroup hLevel laid]
    exact congrArg Prod.fst hEnd.symm

end BrushOutcome

end FixedPage
