import FixedPage.Proofs.Mirror.Relation
import FixedPage.Proofs.Tint.Elements

/-
  This file shows that whatever a page is painted with, its colors
  come from literals and opacities that are given, and says when
  they are in range. Colors that are resolved are clamped, but what
  is no number stays as it is, and an opacity is not clamped before
  a color is multiplied by it.

  Main declarations:
    * `Stack.feed_sound`
    * `runFragment_meets`
    * `startElement_meets`
    * `pageBrush_tinted`
    * `Page.render_sound`
    * `Page.render_colors`
-/

namespace FixedPage

open Markup

section

variable {α : Type} [Scalar α] {env : Environment α}

------------------------------------------------------------
-- Events
------------------------------------------------------------

/- Elements that are offered start inside frames that are sound. -/
def StartsTinted
    (env : Environment α)
    (handler : StartHandler α) : Prop :=
  ∀ frame e,
    frame.Sound env →
      Offered env (.startTag e.name e.attributes) →
        Action.Meets env (Opened env (Frame.Sound env))
          (handler frame e)

/- All frames on a stack are sound. -/
def Stack.Sound
    (env : Environment α)
    (stack : Stack α) : Prop :=
  ∀ entry ∈ stack.entries, entry.frame.Sound env

/- What became of a stack is sound, and so is the product. -/
structure Fed.Sound
    (env : Environment α)
    (fed : Fed α) : Prop where
  stack : fed.stack.Sound env
  state : fed.state.Sound env
  product :
    ∀ product, fed.result = .ok (some product) → product.Sound env

namespace Fed.Sound

variable {stack : Stack α} {st : RenderState α}

/- An event has failed to be taken. -/
theorem failed
    (fault : Error)
    (hStack : stack.Sound env)
    (hState : st.Sound env) :
    Fed.Sound env ⟨.error fault, stack, st⟩ := by
  refine ⟨hStack, hState, ?_⟩
  intro product hResult
  cases hResult

/- An event has been taken, and the run goes on. -/
theorem ongoing
    (hStack : stack.Sound env)
    (hState : st.Sound env) :
    Fed.Sound env ⟨.ok none, stack, st⟩ := by
  refine ⟨hStack, hState, ?_⟩
  intro product hResult
  cases hResult

end Fed.Sound

/- No frame is left. -/
theorem Stack.Sound.empty
    (depth : Nat) :
    Stack.Sound env ⟨[], depth⟩ :=
  List.forall_mem_nil _

/- The root frame of a fragment or a part. -/
theorem Stack.Sound.root
    (root : Entry α)
    {depth : Nat}
    (hRoot : root.frame.Sound env) :
    Stack.Sound env ⟨[root], depth⟩ :=
  List.forall_mem_singleton.mpr hRoot

section

variable {handler : StartHandler α}
variable (hStarts : StartsTinted env handler)
variable {stack : Stack α} {st : RenderState α}
variable (hStack : stack.Sound env) (hState : st.Sound env)

include hStack hState

include hStarts in
/- An element that is offered starts. -/
theorem Stack.startElement_sound
    {e : Element}
    (hTag : Offered env (.startTag e.name e.attributes)) :
    (stack.startElement handler e st).Sound env := by
  rcases stack with ⟨_ | ⟨top, below⟩, depth⟩
  · exact .failed _ (.empty _) hState
  · rcases List.forall_mem_cons.mp hStack with ⟨hTop, hBelow⟩
    rcases hStarts top.frame e hTop hTag st hState with ⟨hDone, hOpens⟩
    unfold startElement
    dsimp only
    rcases hStart : (handler top.frame e).perform st with
      ⟨fault | ⟨frame, child?⟩, now⟩
    · rw [hStart] at hDone
      exact .failed fault hStack hDone
    · rw [hStart] at hDone hOpens
      rcases hOpens _ rfl with ⟨hFrame, hChild⟩
      have hRest :
          ∀ entry ∈ ⟨frame, top.owner⟩ :: below,
            entry.frame.Sound env :=
        List.forall_mem_cons.mpr ⟨hFrame, hBelow⟩
      cases child? with
      | none => exact .ongoing hRest hDone
      | some child =>
          refine .ongoing ?_ hDone
          exact List.forall_mem_cons.mpr ⟨hChild child rfl, hRest⟩

/- An element ends whose end tag is offered. -/
theorem Stack.endElement_sound
    {name : String}
    (place : Location)
    (hTag : Offered env (.endTag name)) :
    (stack.endElement env place name st).Sound env := by
  rcases stack with ⟨_ | ⟨top, below⟩, depth⟩
  · exact .failed _ (.empty _) hState
  · rcases List.forall_mem_cons.mp hStack with ⟨hTop, hBelow⟩
    unfold endElement
    dsimp only
    split
    · have hNone : (Product.none : Product α).Sound env := AllTinted.nil
      rcases Frame.endChild_sound hState name hTop hNone hTag with
        ⟨hFrame, hDone⟩
      exact .ongoing (List.forall_mem_cons.mpr ⟨hFrame, hBelow⟩) hDone
    · rcases Frame.finish_meets hTop st hState with ⟨hDone, hGives⟩
      rcases hFinish : (top.frame.finish env).perform st with
        ⟨fault | product, now⟩
      · rw [hFinish] at hDone
        exact .failed fault hBelow (Frame.abort_sound hDone top.frame)
      · rw [hFinish] at hDone hGives
        have hProduct := hGives product rfl
        rcases below with _ | ⟨parent, below⟩
        · refine ⟨.empty _, hDone, ?_⟩
          rintro _ ⟨⟩
          exact hProduct
        · rcases List.forall_mem_cons.mp hBelow with
            ⟨hParent, hRest⟩
          rcases Frame.endChild_sound hDone name hParent hProduct hTag
            with ⟨hFrame, hLater⟩
          exact
            .ongoing (List.forall_mem_cons.mpr ⟨hFrame, hRest⟩) hLater

include hStarts in
/- An event that is offered is taken. -/
theorem Stack.feed_sound
    {event : Event}
    (place : Location)
    (hEvent : Offered env event) :
    (stack.feed env handler place st event).Sound env := by
  cases event with
  | startTag name attributes =>
      exact
        startElement_sound hStarts hStack hState
          (e := ⟨place, name, attributes⟩) hEvent
  | endTag name => exact endElement_sound hStack hState place hEvent
  | text content => exact .ongoing hStack hState

omit hStack in
/- All frames are given up. -/
theorem Stack.unwind_sound
    (stack : Stack α) :
    (stack.unwind st).Sound env := by
  rcases stack with ⟨entries, depth⟩
  unfold Stack.unwind
  dsimp only
  induction entries generalizing st with
  | nil => exact hState
  | cons top below ih => exact ih (Frame.abort_sound hState top.frame)

------------------------------------------------------------
-- Runs
------------------------------------------------------------

omit hStack in
/- A run that fails gives up its frames and gives nothing. -/
theorem Stack.unwind_gives
    (fault : Error)
    (stack : Stack α) :
    (stack.unwind st).Sound env ∧
      ∀ product : Product α,
        Except.error fault = .ok product → product.Sound env := by
  refine ⟨unwind_sound hState stack, ?_⟩
  intro product hResult
  cases hResult

include hStarts in
/- The events of a fragment are taken. -/
theorem runOpenFragment_sound
    {items : List Item}
    (hItems :
      ∀ place event, .ok (place, event) ∈ items → Offered env event) :
    (runOpenFragment env handler stack st items).2.Sound env ∧
      ∀ product,
        (runOpenFragment env handler stack st items).1 = .ok product →
          product.Sound env := by
  induction items generalizing stack st with
  | nil => exact Stack.unwind_gives hState _ stack
  | cons item rest ih =>
      rcases item with fault | ⟨place, event⟩
      · exact Stack.unwind_gives hState fault stack
      · have hFed :=
          Stack.feed_sound hStarts hStack hState place
            (hItems place event List.mem_cons_self)
        have hRest :
            ∀ place event,
              .ok (place, event) ∈ rest → Offered env event :=
          fun place event hMem =>
            hItems place event (List.mem_cons_of_mem _ hMem)
        unfold runOpenFragment
        generalize stack.feed env handler place st event = fed at hFed ⊢
        rcases fed with ⟨fault | _ | product, next, now⟩
        · exact Stack.unwind_gives hFed.state fault next
        · exact ih hFed.stack hFed.state hRest
        · refine ⟨hFed.state, ?_⟩
          rintro _ ⟨⟩
          exact hFed.product product rfl

include hStarts in
/- The events of a part are taken. -/
theorem runPart_sound
    {items : List Item}
    (hItems :
      ∀ place event, .ok (place, event) ∈ items → Offered env event) :
    (runPart env handler stack st items).2.Sound env := by
  induction items generalizing stack st with
  | nil =>
      unfold runPart endPart
      split
      · rename_i root
        exact
          (Frame.finish_meets (hStack root List.mem_cons_self) st
            hState).1
      · exact Stack.unwind_sound hState stack
  | cons item rest ih =>
      rcases item with fault | ⟨place, event⟩
      · exact Stack.unwind_sound hState stack
      · have hFed :=
          Stack.feed_sound hStarts hStack hState place
            (hItems place event List.mem_cons_self)
        have hRest :
            ∀ place event,
              .ok (place, event) ∈ rest → Offered env event :=
          fun place event hMem =>
            hItems place event (List.mem_cons_of_mem _ hMem)
        unfold runPart
        generalize stack.feed env handler place st event = fed at hFed ⊢
        rcases fed with ⟨fault | product?, next, now⟩
        · exact Stack.unwind_sound hFed.state next
        · exact ih hFed.stack hFed.state hRest

end

omit [Scalar α] in
/- What follows the first element of a fragment. -/
theorem fragmentRoot_suffix
    {env : Environment α}
    {expected? : Option String}
    {items rest : List Item}
    (hRoot : fragmentRoot env expected? items = .ok rest) :
    rest <:+ items := by
  unfold fragmentRoot at hRoot
  split at hRoot
  · cases hRoot
  · cases hRoot
  · split at hRoot
    · split at hRoot
      · cases hRoot
        exact List.suffix_cons _ _
      · cases hRoot
    · cases hRoot
      exact List.suffix_cons _ _
  · cases hRoot

/- A fragment of events that are offered. -/
theorem runFragment_meets
    {handler : StartHandler α}
    (hStarts : StartsTinted env handler)
    (root : Frame α)
    (hRoot : root.Sound env)
    (expected? : Option String)
    {items : List Item}
    (hItems :
      ∀ place event, .ok (place, event) ∈ items → Offered env event) :
    Action.Meets env (Product.Sound env)
      (runFragment env handler root expected? items) := by
  refine .bind (.ofExcept fun _ hOk => hOk) fun rest hRest => ?_
  intro st hState
  refine runOpenFragment_sound hStarts (.root _ hRoot) hState ?_
  intro place event hMem
  exact hItems place event ((fragmentRoot_suffix hRest).subset hMem)

------------------------------------------------------------
-- Dictionaries
------------------------------------------------------------

/- Stored elements start. -/
theorem startStored_tinted :
    StartsTinted env (startStored (α := α)) := by
  intro frame e hFrame hTag
  unfold startStored
  split
  · exact .readPure fun _ _ => .alone AllTinted.nil
  · rename_i current?
    refine .readPure fun next? hStart => .alone ?_
    unfold startEntry at hStart
    cases current? with
    | some entry =>
        cases hStart
        exact .startChild hFrame hTag
    | none =>
        dsimp only at hStart
        cases hKey : e.required keyAttribute with
        | error fault =>
            rw [hKey] at hStart
            cases hStart
        | ok key =>
            rw [hKey] at hStart
            cases hStart
            exact .begin hTag (Element.of_required hKey)
  · exact .fail _

/- A dictionary with a part of its own is loaded. -/
theorem loadDictionary_meets
    {e : Element}
    {source : String}
    (hTag : Offered env (.startTag e.name e.attributes))
    (hElement : e.name = "ResourceDictionary")
    (hSource : e.value? "Source" = some source) :
    Action.Meets env (fun _ => True) (loadDictionary env source) := by
  unfold loadDictionary
  dsimp only
  split
  · exact .fail _
  · rename_i content hPart
    refine .bind (.ofExcept fun _ hOk => hOk) fun items hItems => ?_
    have hOffered :
        ∀ place event,
          .ok (place, event) ∈ items → Offered env event :=
      fun place event hMem =>
        .part hTag hElement hSource rfl hPart hItems hMem
    exact
      .thenPure
        (runFragment_meets startStored_tinted (.dictionary none)
          AllTinted.nil _ hOffered)
        fun _ _ => trivial

/- An element inside the owner of dictionaries starts. -/
theorem startResources_meets
    {e : Element}
    (hTag : Offered env (.startTag e.name e.attributes))
    (remote : Bool) :
    Action.Meets env (Opened env fun _ => True)
      (startResources env remote e) := by
  unfold startResources
  split
  · exact .fail _
  · rename_i hName
    have hElement : e.name = "ResourceDictionary" := by
      simp only [Bool.or_eq_true, bne_iff_ne, not_or,
        Decidable.not_not] at hName
      exact hName.1
    split
    · rename_i source hSource
      exact
        (loadDictionary_meets hTag hElement hSource).thenPure
          fun _ _ => .alone trivial
    · exact .pure (.beside trivial AllTinted.nil)

------------------------------------------------------------
-- Elements
------------------------------------------------------------

/- Elements of a page start. -/
theorem startElement_meets
    (hReads : ReadsUnit env.readProfile)
    {lookup : BrushLookup α}
    (hLookup : LooksUpTinted env lookup) :
    StartsTinted env (startElement env lookup) := by
  intro frame e hFrame hTag
  cases frame with
  | content f =>
      exact
        (f.startChild_meets hReads hTag hLookup).thenPure
          fun _ hOpened => ⟨AllTinted.nil, hOpened.2⟩
  | canvas f =>
      exact
        (CanvasFrame.startChild_meets hReads hTag hLookup
          hFrame).thenPure fun _ hOpened => hOpened
  | path f =>
      exact
        (PathFrame.startChild_meets hFrame).thenPure
          fun _ hOpened => hOpened
  | geometry f =>
      exact
        (GeometryFrame.startChild_meets hFrame).thenPure
          fun _ hOpened => hOpened
  | brush pattern? =>
      exact
        (startBrush_meets hReads hTag hFrame).thenPure
          fun _ hOpened => hOpened
  | gradient g =>
      exact
        (GradientBrush.startChild_meets hReads hTag hFrame).thenPure
          fun _ hOpened => hOpened
  | image i =>
      refine .readPure fun child? hStart => ⟨AllTinted.nil, ?_⟩
      unfold ImageBrush.startChild at hStart
      split at hStart
      · cases hStart
        rintro _ ⟨⟩
        exact AllTinted.nil
      · cases hStart
  | glyphs f =>
      refine .pure ⟨hFrame, ?_⟩
      intro child hMem
      unfold GlyphsFrame.startChild at hMem
      split at hMem
      all_goals
        cases hMem
        try exact AllTinted.nil
  | resources remote =>
      exact
        (startResources_meets hTag remote).thenPure
          fun _ hOpened => ⟨AllTinted.nil, hOpened.2⟩
  | matrix m => exact startStored_tinted (.matrix m) e hFrame hTag
  | dictionary current? =>
      exact startStored_tinted (.dictionary current?) e hFrame hTag

/- Stored brushes are read from markup that was recorded. -/
theorem storedBrush_tinted
    (hReads : ReadsUnit env.readProfile)
    (budget : Nat) :
    LooksUpTinted env (storedBrush env budget) := by
  induction budget with
  | zero =>
      intro key
      exact .fail _
  | succ budget ih =>
      intro key
      have hResource :
          Action.Meets env
            (fun markup =>
              ∃ entry, Recorded env entry ∧ markup = entry.markup)
            (Action.resource (α := α) key) := by
        intro st hState
        unfold Action.resource
        rw [Action.perform_ofEffect]
        cases hFound : st.scope.get? key with
        | none => exact ⟨hState, nofun⟩
        | some markup =>
            refine ⟨hState, ?_⟩
            rintro _ ⟨⟩
            exact hState.get? hFound
      unfold storedBrush
      refine .bind hResource ?_
      rintro _ ⟨entry, hEntry, rfl⟩
      have hOffered :
          ∀ place event,
            .ok (place, event) ∈ readText env.source entry.markup →
              Offered env event :=
        fun place event hMem => .stored hEntry hMem
      refine
        .bind
          (runFragment_meets (startElement_meets hReads ih)
            (.brush none) AllTinted.nil none hOffered)
          fun product hProduct => ?_
      cases product with
      | pattern pattern? => exact .pure hProduct
      | _ => exact .pure AllTinted.nil

------------------------------------------------------------
-- Pages
------------------------------------------------------------

/- What a page leaves is sound, whether it fails or not. -/
theorem Page.render_sound
    (hReads : ReadsUnit env.readProfile)
    {st : RenderState α}
    (hState : st.Sound env) :
    (Page.render env st).2.Sound env := by
  unfold render
  cases hItems : Page.items env with
  | error fault => exact hState
  | ok items =>
      exact
        runPart_sound
          (startElement_meets hReads (storedBrush_tinted hReads _))
          (.root ⟨.content ⟨none, 0⟩, 0⟩ AllTinted.nil) hState
          fun place event hMem => .page hItems hMem

/- Whatever a page is painted with is tinted. -/
theorem Page.render_tinted
    (hReads : ReadsUnit env.readProfile)
    (fonts : Cache (Font α))
    (images : Cache (Image α))
    {profiles : ProfileCache α}
    (hProfiles : HoldsUnit profiles) :
    ∀ op ∈ (Page.render env
        (.start fonts images profiles)).2.surface.written,
      ∀ color ∈ op.colors, Tinted env color := by
  intro op hOp color hColor
  have hStart :
      (RenderState.start fonts images profiles).Sound env :=
    ⟨Surface.Sound.blank, nofun, hProfiles⟩
  rcases List.mem_flatMap.mp hColor with ⟨p, hPattern, hShown⟩
  exact
    (render_sound hReads hStart).surface op hOp p hPattern color hShown

/-
  A literal that is resolved gives a color in range if and only if
  its channels are numbers. Whatever a page is painted with, its
  colors are resolved from such literals. Those of gradients and
  of brushes of one color have been multiplied by an opacity, and
  are in range if and only if the opacity still is after that.
-/
theorem Page.render_colors
    [OrderedScalar α]
    (hReads : ReadsUnit env.readProfile)
    (fonts : Cache (Font α))
    (images : Cache (Image α))
    {profiles : ProfileCache α}
    (hProfiles : HoldsUnit profiles) :
    (∀ (source? : Option (ProfileSource α)) (literal : String)
        (cache : ProfileCache α) (color : Color α),
      (∀ source ∈ source?, ReadsUnit source.read) →
        HoldsUnit cache →
          (ColorLiteral.resolve source? literal cache).1 = .ok color →
            (color.InUnit ↔ ColorLiteral.OfNumbers literal)) ∧
      ∀ op ∈ (Page.render env
          (.start fonts images profiles)).2.surface.written,
        ∀ color ∈ op.colors,
          ∃ literal base,
            Dyed env literal base ∧
              (color = base ∧
                  (color.InUnit ↔ ColorLiteral.OfNumbers literal) ∨
                ∃ opacity,
                  Faded env opacity ∧
                    color = base.withOpacity opacity ∧
                      (color.InUnit ↔
                        ColorLiteral.OfNumbers literal ∧
                          Scalar.InUnit (base.alpha * opacity))) := by
  constructor
  · intro source? literal cache color hSource hHolds hOk
    exact ColorLiteral.resolve_inUnit hHolds hSource hOk
  · intro op hOp color hColor
    have hTinted :=
      render_tinted hReads fonts images hProfiles op hOp color hColor
    cases hTinted with
    | @plain literal color hDyed =>
        exact
          ⟨literal, color, hDyed,
            .inl ⟨rfl, hDyed.inUnit_iff hReads⟩⟩
    | @faded literal base opacity hDyed hFaded =>
        refine ⟨literal, base, hDyed, .inr ?_⟩
        exact
          ⟨opacity, hFaded, rfl,
            hDyed.withOpacity_inUnit_iff hReads opacity⟩

/-
  So all colors of a page are in range where all literals have only
  numbers and all opacities are in range.
-/
theorem Page.render_inUnit
    [OrderedScalar α]
    (hReads : ReadsUnit env.readProfile)
    (fonts : Cache (Font α))
    (images : Cache (Image α))
    {profiles : ProfileCache α}
    (hProfiles : HoldsUnit profiles)
    (hNumbers :
      ∀ name ∈ colorAttributes, ∀ literal,
        Given env ⟨name, literal⟩ → ColorLiteral.OfNumbers literal)
    (hOpacity : ∀ opacity : α, Faded env opacity → Scalar.InUnit opacity) :
    ∀ op ∈ (Page.render env
        (.start fonts images profiles)).2.surface.written,
      ∀ color ∈ op.colors, color.InUnit := by
  intro op hOp color hColor
  have hTinted :=
    render_tinted hReads fonts images hProfiles op hOp color hColor
  exact hTinted.inUnit hReads hNumbers hOpacity

end

------------------------------------------------------------
-- A page with too much opacity
------------------------------------------------------------

namespace OpaquePage

/- A page with a path that is filled with twice the opacity. -/
def env : Environment Extended :=
  { Environment.empty with
    part? := fun _ =>
      some (Text.Utf8.encode
        ("<FixedPage><Path Data=\"M 0,0 L 8,0 8,8 Z\"><Path.Fill>"
          ++ "<SolidColorBrush Color=\"#FF0000\" Opacity=\"2\"/>"
          ++ "</Path.Fill></Path></FixedPage>").toList) }

/- The color that the path is filled with. -/
def red : Color Extended :=
  ⟨.finite 1, .finite 0, .finite 0, .finite 2⟩

/- What has been drawn on the surface of the page. -/
def written : List (Operation Extended) :=
  (Page.render env (.start .empty .empty .empty)).2.surface.written

end OpaquePage

/- The path is filled with a color that is out of range. -/
theorem OpaquePage.red_overdrawn :
    .setSource (.solid OpaquePage.red) ∈ OpaquePage.written ∧
      ¬ OpaquePage.red.InUnit ∧
        ∃ literal base,
          Dyed OpaquePage.env literal base ∧
            (OpaquePage.red = base ∧
                (OpaquePage.red.InUnit ↔
                  ColorLiteral.OfNumbers literal) ∨
              ∃ opacity,
                Faded OpaquePage.env opacity ∧
                  OpaquePage.red = base.withOpacity opacity ∧
                    (OpaquePage.red.InUnit ↔
                      ColorLiteral.OfNumbers literal ∧
                        Scalar.InUnit (base.alpha * opacity))) := by
  have hWritten :
      .setSource (.solid OpaquePage.red) ∈ OpaquePage.written := by
    decide +kernel
  have hReads : ReadsUnit OpaquePage.env.readProfile := by
    intro content p hOk
    cases hOk
  have hProfiles : HoldsUnit (.empty : ProfileCache Extended) := by
    intro name p hFound
    cases hFound
  refine ⟨hWritten, ?_, ?_⟩
  · intro hUnit
    rcases Extended.inUnit_iff.mp hUnit.alpha with ⟨q, hIs, -, hHigh⟩
    cases hIs
    norm_num at hHigh
  · exact
      (Page.render_colors hReads .empty .empty hProfiles).2 _ hWritten
        OpaquePage.red List.mem_cons_self

end FixedPage
