import FixedPage.Proofs.Parallel.Closing
import FixedPage.Render.Opening.Content

/-
  This file shows that two runs side by side take the same events
  alike, if the elements start alike in them. It follows for what
  is stored as markup and for the values that refer to it.

  Main declarations:
    * `Stack.patterns`
    * `StartsParallel`
    * `Stack.feed_agrees`
    * `runFragment_agrees`
    * `runPart_agrees`
    * `brushValue_agrees`
-/

namespace FixedPage

open Markup

variable {α : Type}

------------------------------------------------------------
-- Stacks
------------------------------------------------------------

/- What is painted with while the frames of a stack are open. -/
def Stack.patterns
    (stack : Stack α) : List (Pattern α) :=
  stack.entries.flatMap fun entry => entry.frame.patterns

/- What an event leaves to be painted with. -/
def Fed.patterns
    (fed : Fed α) : List (Pattern α) :=
  (match fed.result with
    | .ok (some product) => product.patterns
    | _ => []) ++ fed.stack.patterns

/- Without a product only the frames are painted with. -/
theorem Fed.shown_none
    {w : List (Operation α)}
    {stack : Stack α}
    {st : RenderState α}
    (hShown : Shown w stack.patterns) :
    Shown w (Fed.patterns ⟨.ok none, stack, st⟩) :=
  hShown

/- What a frame and the one it opened are painted with. -/
def openedPatterns
    {β : Type}
    (own : β → List (Pattern α))
    (opened : β × Option (Frame α)) : List (Pattern α) :=
  own opened.1 ++ opened.2.toList.flatMap Frame.patterns

section

variable {β : Type} (own : β → List (Pattern α)) (b : β)

@[simp] theorem openedPatterns_none :
    openedPatterns own (b, none) = own b :=
  List.append_nil _

@[simp] theorem openedPatterns_some
    (child : Frame α) :
    openedPatterns own (b, some child) = own b ++ child.patterns := by
  simp [openedPatterns]

end

/- Elements start alike in every frame. -/
def StartsParallel
    (L : Likeness α)
    (handler handler' : StartHandler α) : Prop :=
  ∀ frame e,
    Action.Agrees L frame.patterns (openedPatterns Frame.patterns)
      (handler frame e) (handler' frame e)

namespace Likeness

/-
  Two stacks that took an event did so alike, unless the first
  one failed beside one that puts up with more.
-/
inductive Feeds
    (L : Likeness α)
    (st : RenderState α) : Fed α → Fed α → Prop
| same
    {result : Except Error (Option (Product α))}
    {stack : Stack α}
    {now now' : RenderState α}
    (hState : L.Relates now now')
    (hGrows : st.surface.written <+: now.surface.written)
    (hShown :
      Shown now.surface.written (Fed.patterns ⟨result, stack, now⟩)) :
    Feeds L st ⟨result, stack, now⟩ ⟨result, stack, now'⟩
| lax
    {fault : Error}
    {stack : Stack α}
    {now : RenderState α}
    {fed' : Fed α}
    (hLax : L.lax = true) :
    Feeds L st ⟨.error fault, stack, now⟩ fed'

end Likeness

section

variable [Scalar α]
variable {env : Environment α} {options : Options} {L : Likeness α}
variable {handler handler' : StartHandler α}
variable {st st' : RenderState α}

namespace Stack

omit [Scalar α] in
/- An element that starts is seen alike. -/
theorem startElement_agrees
    (hStarts : StartsParallel L handler handler')
    (e : Element)
    (stack : Stack α)
    (hStates : L.Relates st st')
    (hShown : Shown st.surface.written stack.patterns) :
    L.Feeds st (stack.startElement handler e st)
      (stack.startElement handler' e st') := by
  rcases stack with ⟨entries, depth⟩
  cases entries with
  | nil => exact .same hStates List.prefix_rfl Shown.nil
  | cons top below =>
      have hParts :
          Shown st.surface.written
            (top.frame.patterns ++ patterns ⟨below, depth⟩) :=
        hShown
      rcases Shown.append_iff.mp hParts with ⟨hTop, hBelow⟩
      have hOutcome := hStarts top.frame e st st' hStates hTop
      unfold startElement
      dsimp only
      generalize (handler top.frame e).perform st = outcome
        at hOutcome ⊢
      generalize (handler' top.frame e).perform st' = outcome'
        at hOutcome ⊢
      cases hOutcome with
      | error hState hGrows =>
          exact .same hState hGrows (hShown.later hGrows)
      | lax hLax => exact .lax hLax
      | @ok opened now now' hState hGrows hOpened =>
          rcases opened with ⟨frame, child?⟩
          rcases Shown.append_iff.mp hOpened with ⟨hFrame, hChild⟩
          have hOpen :
              Shown now.surface.written
                (patterns ⟨⟨frame, top.owner⟩ :: below, depth + 1⟩) :=
            Shown.append_iff.mpr ⟨hFrame, hBelow.later hGrows⟩
          refine .same hState hGrows ?_
          cases child? with
          | none => exact Fed.shown_none hOpen
          | some child =>
              have hOwn : Shown now.surface.written child.patterns := by
                simpa using hChild
              exact Fed.shown_none (Shown.append_iff.mpr ⟨hOwn, hOpen⟩)

/- An element that ends is seen alike. -/
theorem endElement_agrees
    (hFonts : Cache.Serves env.loadFont L.fonts)
    (hImages : Cache.Serves env.loadImage L.images)
    (place : Location)
    (name : String)
    (stack : Stack α)
    (hStates : L.Relates st st')
    (hShown : Shown st.surface.written stack.patterns) :
    L.Feeds st (stack.endElement env place name st)
      (stack.endElement env place name st') := by
  -- A parent makes something of the product in related states.
  have hSeen
      {now now' : RenderState α}
      (parent : Entry α)
      (below : List (Entry α))
      (depth : Nat)
      (product : Product α)
      (hState : L.Relates now now')
      (hGrows : st.surface.written <+: now.surface.written)
      (hProduct : Shown now.surface.written product.patterns)
      (hParent : Shown now.surface.written parent.frame.patterns)
      (hBelow : Shown now.surface.written (patterns ⟨below, depth⟩)) :
      L.Feeds st
        ⟨.ok none,
          ⟨⟨(parent.frame.endChild env name product now).1,
            parent.owner⟩ :: below, depth⟩,
          (parent.frame.endChild env name product now).2⟩
        ⟨.ok none,
          ⟨⟨(parent.frame.endChild env name product now').1,
            parent.owner⟩ :: below, depth⟩,
          (parent.frame.endChild env name product now').2⟩ := by
    have hOutcome :=
      parent.frame.endChild_agrees name product hImages now now' hState
        (Shown.append_iff.mpr ⟨hParent, hProduct⟩)
    generalize parent.frame.endChild env name product now = outcome
      at hOutcome ⊢
    generalize parent.frame.endChild env name product now' = outcome'
      at hOutcome ⊢
    rcases outcome with ⟨frame, next⟩
    rcases outcome' with ⟨frame', next'⟩
    cases hOutcome with
    | ok hNext hLater hFrame =>
        exact
          .same hNext (hGrows.trans hLater)
            (Fed.shown_none
              (Shown.append_iff.mpr ⟨hFrame, hBelow.later hLater⟩))
  rcases stack with ⟨entries, depth⟩
  cases entries with
  | nil => exact .same hStates List.prefix_rfl Shown.nil
  | cons top below =>
      have hParts :
          Shown st.surface.written
            (top.frame.patterns ++ patterns ⟨below, depth⟩) :=
        hShown
      rcases Shown.append_iff.mp hParts with ⟨hTop, hBelow⟩
      unfold endElement
      dsimp only
      by_cases hInside : (top.owner != depth) = true
      · rw [if_pos hInside, if_pos hInside]
        exact
          hSeen top below (depth - 1) .none hStates List.prefix_rfl
            Shown.nil hTop hBelow
      · have hOutcome :=
          top.frame.finish_agrees hFonts st st' hStates hTop
        rw [if_neg hInside, if_neg hInside]
        generalize (top.frame.finish env).perform st = outcome
          at hOutcome ⊢
        generalize (top.frame.finish env).perform st' = outcome'
          at hOutcome ⊢
        cases hOutcome with
        | lax hLax => exact .lax hLax
        | error hState hGrows =>
            rcases top.frame.abort_relates hState with
              ⟨hAborted, hLater⟩
            have hAll := hGrows.trans hLater
            exact .same hAborted hAll (hBelow.later hAll)
        | @ok product now now' hState hGrows hProduct =>
            cases below with
            | nil =>
                exact
                  .same hState hGrows
                    (Shown.append_iff.mpr ⟨hProduct, Shown.nil⟩)
            | cons parent below =>
                have hRest :
                    Shown st.surface.written
                      (parent.frame.patterns
                        ++ patterns ⟨below, depth⟩) :=
                  hBelow
                rcases Shown.append_iff.mp hRest with
                  ⟨hParent, hBelow⟩
                exact
                  hSeen parent below (depth - 1) product hState hGrows
                    hProduct (hParent.later hGrows)
                    (hBelow.later hGrows)

/- An event is taken alike. -/
theorem feed_agrees
    (hAdmits : L.Admits env options)
    (hStarts : StartsParallel L handler handler')
    (place : Location)
    (event : Event)
    (stack : Stack α)
    (hStates : L.Relates st st')
    (hShown : Shown st.surface.written stack.patterns) :
    L.Feeds st (stack.feed env handler place st event)
      (stack.feed (env.under options) handler' place st' event) := by
  cases event with
  | startTag name attributes =>
      exact stack.startElement_agrees hStarts _ hStates hShown
  | endTag name =>
      exact
        stack.endElement_agrees hAdmits.fonts hAdmits.images place name
          hStates hShown
  | text content => exact .same hStates List.prefix_rfl hShown

omit [Scalar α] in
/- Every frame is given up alike. -/
theorem unwind_relates
    (stack : Stack α)
    (hStates : L.Relates st st') :
    L.Relates (stack.unwind st) (stack.unwind st') ∧
      st.surface.written <+: (stack.unwind st).surface.written := by
  rcases stack with ⟨entries, depth⟩
  unfold unwind
  dsimp only
  induction entries generalizing st st' with
  | nil => exact ⟨hStates, List.prefix_rfl⟩
  | cons top below ih =>
      rcases top.frame.abort_relates hStates with ⟨hTop, hGrows⟩
      rcases ih hTop with ⟨hAll, hLater⟩
      exact ⟨hAll, hGrows.trans hLater⟩

end Stack

------------------------------------------------------------
-- Fragments and parts
------------------------------------------------------------

omit [Scalar α] in
/- A stack is given up alike after a failure. -/
theorem Likeness.Outcome.unwound
    {β : Type}
    {shows : β → List (Pattern α)}
    {now now' : RenderState α}
    (fault : Error)
    (stack : Stack α)
    (hState : L.Relates now now')
    (hGrows : st.surface.written <+: now.surface.written) :
    L.Outcome shows st (.error fault, stack.unwind now)
      (.error fault, stack.unwind now') := by
  rcases stack.unwind_relates hState with ⟨hUnwound, hLater⟩
  exact .error hUnwound (hGrows.trans hLater)

/- The events of an open fragment are taken alike. -/
theorem runOpenFragment_agrees
    (hAdmits : L.Admits env options)
    (hStarts : StartsParallel L handler handler')
    (items : List Item)
    (stack : Stack α)
    (hStates : L.Relates st st')
    (hShown : Shown st.surface.written stack.patterns) :
    L.Outcome Product.patterns st
      (runOpenFragment env handler stack st items)
      (runOpenFragment (env.under options) handler' stack st'
        items) := by
  induction items generalizing stack st st' with
  | nil => exact .unwound _ stack hStates List.prefix_rfl
  | cons item rest ih =>
      cases item with
      | error fault => exact .unwound fault stack hStates List.prefix_rfl
      | ok item =>
          rcases item with ⟨place, event⟩
          have hFed :=
            stack.feed_agrees hAdmits hStarts place event hStates hShown
          rw [runOpenFragment, runOpenFragment]
          generalize stack.feed env handler place st event = fed
            at hFed ⊢
          generalize
            stack.feed (env.under options) handler' place st' event =
              fed' at hFed ⊢
          cases hFed with
          | lax hLax => exact .lax hLax
          | @same result next now now' hState hGrows hLeft =>
              rcases Shown.append_iff.mp hLeft with ⟨hResult, hNext⟩
              cases result with
              | error fault => exact .unwound fault next hState hGrows
              | ok product? =>
                  cases product? with
                  | none => exact (ih next hState hNext).after hGrows
                  | some product => exact .ok hState hGrows hResult

/- A fragment is read alike. -/
theorem runFragment_agrees
    (hAdmits : L.Admits env options)
    (hStarts : StartsParallel L handler handler')
    (given : List (Pattern α))
    {root : Frame α}
    (hRoot : root.patterns = [])
    (expected? : Option String)
    (items : List Item) :
    Action.Agrees L given Product.patterns
      (runFragment env handler root expected? items)
      (runFragment (env.under options) handler' root expected?
        items) := by
  refine .bind (.ofExcept _) fun rest st st' hStates _ => ?_
  have hStack : (Stack.ofOpenElement root).patterns = [] := by
    simp [Stack.patterns, Stack.ofOpenElement, hRoot]
  refine runOpenFragment_agrees hAdmits hStarts rest _ hStates ?_
  rw [hStack]
  exact Shown.nil

/- The events of a part are taken alike. -/
theorem runPart_agrees
    (hAdmits : L.Admits env options)
    (hStarts : StartsParallel L handler handler')
    (items : List Item)
    (stack : Stack α)
    (hStates : L.Relates st st')
    (hShown : Shown st.surface.written stack.patterns) :
    L.Outcome (fun _ => []) st
      (runPart env handler stack st items)
      (runPart (env.under options) handler' stack st' items) := by
  induction items generalizing stack st st' with
  | nil =>
      rw [runPart, runPart]
      unfold endPart
      split
      · rename_i root
        have hRoot : Shown st.surface.written root.frame.patterns := by
          simpa [Stack.patterns] using hShown
        have hOutcome :=
          root.frame.finish_agrees hAdmits.fonts st st' hStates hRoot
        change L.Outcome _ st _
          (((root.frame.finish env).perform st').map _ id)
        generalize (root.frame.finish env).perform st = outcome
          at hOutcome ⊢
        generalize (root.frame.finish env).perform st' = outcome'
          at hOutcome ⊢
        cases hOutcome with
        | ok hState hGrows _ => exact .ok hState hGrows Shown.nil
        | error hState hGrows => exact .error hState hGrows
        | lax hLax => exact .lax hLax
      · exact .unwound _ stack hStates List.prefix_rfl
  | cons item rest ih =>
      cases item with
      | error fault => exact .unwound fault stack hStates List.prefix_rfl
      | ok item =>
          rcases item with ⟨place, event⟩
          have hFed :=
            stack.feed_agrees hAdmits hStarts place event hStates hShown
          rw [runPart, runPart]
          generalize stack.feed env handler place st event = fed
            at hFed ⊢
          generalize
            stack.feed (env.under options) handler' place st' event =
              fed' at hFed ⊢
          cases hFed with
          | lax hLax => exact .lax hLax
          | @same result next now now' hState hGrows hLeft =>
              rcases Shown.append_iff.mp hLeft with ⟨_, hNext⟩
              cases result with
              | error fault => exact .unwound fault next hState hGrows
              | ok product? =>
                  exact (ih next hState hNext).after hGrows

------------------------------------------------------------
-- Resources
------------------------------------------------------------

section

variable (given : List (Pattern α))

/- Elements inside a frame that draws nothing start alike. -/
theorem startStored_parallel :
    StartsParallel L startStored (startStored (α := α)) := by
  intro frame e
  cases frame with
  | matrix m => exact .readPure _ fun _ => List.nil_subset _
  | dictionary current? =>
      exact .readPure _ fun _ => List.nil_subset _
  | _ => exact .fail _

omit [Scalar α] in
/- The same markup is stored under a key. -/
theorem Action.resource_agrees
    (key : String) :
    Action.Agrees L given (fun _ => []) (Action.resource key)
      (Action.resource key) := by
  intro st st' hStates _
  unfold Action.resource
  rw [perform_ofEffect, perform_ofEffect, hStates.scope]
  cases st.scope.get? key with
  | some markup => exact .ok hStates List.prefix_rfl Shown.nil
  | none => exact .error hStates List.prefix_rfl

/- A stored matrix is read alike. -/
theorem storedTransform_agrees
    (hAdmits : L.Admits env options)
    (key : String) :
    Action.Agrees L given (fun _ => []) (storedTransform env key)
      (storedTransform (env.under options) key) := by
  unfold storedTransform
  refine .bind (Action.resource_agrees _ key) fun markup =>
    .bind
      (runFragment_agrees hAdmits startStored_parallel _ rfl none _)
      fun product => ?_
  cases product <;> exact .pure (List.nil_subset _)

/- A dictionary of its own part is read alike. -/
theorem loadDictionary_agrees
    (hAdmits : L.Admits env options)
    (source : String) :
    Action.Agrees L given (fun _ => []) (loadDictionary env source)
      (loadDictionary (env.under options) source) := by
  unfold loadDictionary Environment.under
  dsimp only
  split
  · exact .fail _
  · exact
      .bind (.ofExcept _) fun items =>
        .thenPure
          (runFragment_agrees hAdmits startStored_parallel _ rfl _ items)
          fun _ => List.nil_subset _

------------------------------------------------------------
-- Values
------------------------------------------------------------

/- A matrix or a reference to one is read alike. -/
theorem transformValue_agrees
    (hAdmits : L.Admits env options)
    (e : Element)
    (name value : String) :
    Action.Agrees L given (fun _ => []) (transformValue env e name value)
      (transformValue (env.under options) e name value) := by
  unfold transformValue
  split
  · exact storedTransform_agrees _ hAdmits _
  · exact .ofExcept _

/- A matrix is read and applied alike. -/
theorem transformWith_agrees
    {β : Type}
    {shows : β → List (Pattern α)}
    {b : β}
    (hAdmits : L.Admits env options)
    (e : Element)
    (name value : String)
    (hShows : shows b ⊆ given) :
    Action.Agrees L given shows
      (do
        let matrix ← transformValue env e name value
        Action.draw (Surface.transform matrix)
        pure b)
      (do
        let matrix ← transformValue (env.under options) e name value
        Action.draw (Surface.transform matrix)
        pure b) :=
  .bind (transformValue_agrees _ hAdmits e name value) fun m =>
    .thenPure (.draw (.transform m)) fun _ => hShows

/- Path data or a reference to a geometry is read alike. -/
theorem geometryValue_agrees
    (value : String) :
    Action.Agrees L given (fun _ => []) (geometryValue env value)
      (geometryValue env value) := by
  unfold geometryValue
  split
  · exact
      .bind (Action.resource_agrees _ _) fun markup => .ofExcept _
  · exact .pure (List.nil_subset _)

/- A color is read alike. -/
theorem colorValue_agrees
    (hProfiles : Cache.Serves env.profileSource.load L.profiles)
    (e : Element)
    (name value : String) :
    Action.Agrees L given (fun _ => []) (colorValue env e name value)
      (colorValue env e name value) := by
  intro st st' hStates _
  rcases ColorLiteral.resolve_serves hProfiles hStates.profiles value
    with ⟨hResolved, hLater⟩
  have hState :
      L.Relates
        { st with
          profiles :=
            (ColorLiteral.resolve (some env.profileSource) value
              st.profiles).2 }
        { st' with
          profiles :=
            (ColorLiteral.resolve (some env.profileSource) value
              st'.profiles).2 } :=
    { hStates with profiles := hLater }
  unfold colorValue
  rw [Action.perform_ofEffect, Action.perform_ofEffect]
  dsimp only
  rw [hResolved]
  split
  · exact .ok hState List.prefix_rfl Shown.nil
  · exact .error hState List.prefix_rfl
  · exact .ok hState List.prefix_rfl Shown.nil

omit [Scalar α] in
/- The brush under every key is looked up alike. -/
def LooksUpParallel
    (L : Likeness α)
    (lookup lookup' : BrushLookup α) : Prop :=
  ∀ key,
    Action.Agrees L [] Option.toList (lookup key) (lookup' key)

/- A color or a reference to a brush is read alike. -/
theorem brushValue_agrees
    {lookup lookup' : BrushLookup α}
    (hProfiles : Cache.Serves env.profileSource.load L.profiles)
    (hLookup : LooksUpParallel L lookup lookup')
    (e : Element)
    (name value : String) :
    Action.Agrees L given Option.toList
      (brushValue env lookup e name value)
      (brushValue env lookup' e name value) := by
  unfold brushValue
  split
  · exact
      (hLookup _).weaken (List.nil_subset _) fun _ =>
        List.subset_append_left _ _
  · refine .bind (colorValue_agrees _ hProfiles e name value)
      fun color? => .pureShown fun w => ?_
    cases color? with
    | none => exact Shown.nil
    | some color => exact Shown.cons_iff.mpr ⟨trivial, Shown.nil⟩

end

end

end FixedPage
