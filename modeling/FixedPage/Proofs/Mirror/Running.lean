import FixedPage.Proofs.Mirror.Closing
import FixedPage.Render.Opening.Content

/-
  This file shows that the same events are taken alike in two
  states of which one is ahead, if the elements start alike. It
  follows for the resources that are stored as markup.

  Main declarations:
    * `StartsAlike`
    * `Stack.feed_mirrors`
    * `runFragment_mirrors`
    * `transformValue_mirrors`
    * `loadDictionary_mirrors`
-/

namespace FixedPage

open Markup

variable {α : Type}

------------------------------------------------------------
-- Stacks
------------------------------------------------------------

/- Raises the group numbers in the frame of an entry. -/
def Entry.raise
    (k : Nat)
    (entry : Entry α) : Entry α :=
  ⟨entry.frame.raise k, entry.owner⟩

/- Raises the group numbers in the frames of a stack. -/
def Stack.raise
    (k : Nat)
    (stack : Stack α) : Stack α :=
  ⟨stack.entries.map (Entry.raise k), stack.depth⟩

/- Every frame of a stack is raised. -/
theorem Stack.raise_cons
    (k : Nat)
    (top : Entry α)
    (below : List (Entry α))
    (depth : Nat) :
    raise k ⟨top :: below, depth⟩ =
      ⟨⟨top.frame.raise k, top.owner⟩ :: below.map (Entry.raise k),
        depth⟩ :=
  rfl

/- Elements start alike, wherever their places are. -/
def StartsAlike
    (env : Environment α)
    (d : Shift α)
    (same : Bool)
    (handler : StartHandler α) : Prop :=
  ∀ frame e place,
    Action.Mirrors env d same (Frame.raiseBoth d.groups)
      (handler frame e)
      (handler (frame.raise d.groups) (e.moved place))

/- Two stacks that took an event did so alike. -/
structure Fed.Mirrors
    (env : Environment α)
    (d : Shift α)
    (same : Bool)
    (fed fed' : Fed α) : Prop where
  result :
    Except.Alike (Option.map (Product.raise d.groups)) fed.result
      fed'.result
  stack : fed'.stack = fed.stack.raise d.groups
  state : fed.state.Follows env d same fed'.state

section

variable [Scalar α]
variable {env : Environment α} {d : Shift α} {same : Bool}
variable {handler : StartHandler α} {st st' : RenderState α}

namespace Stack

omit [Scalar α] in
/- An element that starts is seen alike. -/
theorem startElement_mirrors
    (hStarts : StartsAlike env d same handler)
    (e : Element)
    (stack : Stack α)
    (hFollows : st.Follows env d same st') :
    Fed.Mirrors env d same (stack.startElement handler e st)
      ((stack.raise d.groups).startElement handler e st') := by
  rcases stack with ⟨entries, depth⟩
  cases entries with
  | nil => exact ⟨.error rfl, rfl, hFollows⟩
  | cons top below =>
      rcases hStarts top.frame e e.place st st' hFollows with
        ⟨hResult, hState⟩
      rw [Element.moved_place] at hResult hState
      rw [raise_cons]
      unfold startElement
      dsimp only
      generalize (handler top.frame e).perform st = outcome
        at hResult hState ⊢
      generalize
        (handler (top.frame.raise d.groups) e).perform st' = outcome'
        at hResult hState ⊢
      rcases outcome with ⟨result, mid⟩
      rcases outcome' with ⟨result', mid'⟩
      cases hResult with
      | error hFault => exact ⟨.error hFault, rfl, hState⟩
      | ok frames =>
          rcases frames with ⟨frame, child?⟩
          refine ⟨.ok none, ?_, hState⟩
          cases child? <;> rfl

/- An element that ends is seen alike. -/
theorem endElement_mirrors
    (place : Location)
    (name : String)
    (stack : Stack α)
    (hFollows : st.Follows env d same st') :
    Fed.Mirrors env d same (stack.endElement env place name st)
      ((stack.raise d.groups).endElement env place name st') := by
  rcases stack with ⟨entries, depth⟩
  cases entries with
  | nil => exact ⟨.error rfl, rfl, hFollows⟩
  | cons top below =>
      rw [raise_cons]
      unfold endElement
      dsimp only
      by_cases hInside : (top.owner != depth) = true
      · have hEnd := top.frame.endChild_mirrors name .none hFollows
        rw [if_pos hInside, if_pos hInside]
        refine ⟨.ok none, ?_, hEnd.2⟩
        exact
          congrArg
            (fun frame =>
              Stack.mk
                (⟨frame, top.owner⟩ :: below.map (Entry.raise d.groups))
                (depth - 1))
            hEnd.1
      · rcases top.frame.finish_mirrors st st' hFollows with
          ⟨hResult, hState⟩
        rw [if_neg hInside, if_neg hInside]
        generalize (top.frame.finish env).perform st = outcome
          at hResult hState ⊢
        generalize
          ((top.frame.raise d.groups).finish env).perform st' =
            outcome' at hResult hState ⊢
        rcases outcome with ⟨result, mid⟩
        rcases outcome' with ⟨result', mid'⟩
        cases hResult with
        | error hFault =>
            exact
              ⟨.error hFault, rfl, top.frame.abort_mirrors hState⟩
        | ok product =>
            cases below with
            | nil => exact ⟨.ok (some product), rfl, hState⟩
            | cons parent below =>
                have hEnd :=
                  parent.frame.endChild_mirrors name product hState
                refine ⟨.ok none, ?_, hEnd.2⟩
                exact
                  congrArg
                    (fun frame =>
                      Stack.mk
                        (⟨frame, parent.owner⟩
                          :: below.map (Entry.raise d.groups))
                        (depth - 1))
                    hEnd.1

/- An event is taken alike. -/
theorem feed_mirrors
    (hStarts : StartsAlike env d same handler)
    (place : Location)
    (event : Event)
    (stack : Stack α)
    (hFollows : st.Follows env d same st') :
    Fed.Mirrors env d same (stack.feed env handler place st event)
      ((stack.raise d.groups).feed env handler place st' event) := by
  cases event with
  | startTag name attributes =>
      exact stack.startElement_mirrors hStarts _ hFollows
  | endTag name => exact stack.endElement_mirrors place name hFollows
  | text content => exact ⟨.ok none, rfl, hFollows⟩

omit [Scalar α] in
/- Every frame is given up alike. -/
theorem unwind_mirrors
    (stack : Stack α)
    (hFollows : st.Follows env d same st') :
    (stack.unwind st).Follows env d same
      ((stack.raise d.groups).unwind st') := by
  rcases stack with ⟨entries, depth⟩
  unfold unwind raise
  dsimp only
  induction entries generalizing st st' with
  | nil => exact hFollows
  | cons top below ih => exact ih (top.frame.abort_mirrors hFollows)

end Stack

------------------------------------------------------------
-- Fragments
------------------------------------------------------------

/- The events of an open fragment are taken alike. -/
theorem runOpenFragment_mirrors
    (hStarts : StartsAlike env d same handler)
    (items : List Item)
    (stack : Stack α)
    (hFollows : st.Follows env d same st') :
    Except.Alike (Product.raise d.groups)
        (runOpenFragment env handler stack st items).1
        (runOpenFragment env handler (stack.raise d.groups) st'
          items).1 ∧
      (runOpenFragment env handler stack st items).2.Follows env d same
        (runOpenFragment env handler (stack.raise d.groups) st'
          items).2 := by
  induction items generalizing stack st st' with
  | nil => exact ⟨.error rfl, stack.unwind_mirrors hFollows⟩
  | cons item rest ih =>
      cases item with
      | error fault => exact ⟨.error rfl, stack.unwind_mirrors hFollows⟩
      | ok item =>
          rcases item with ⟨place, event⟩
          have hFed := stack.feed_mirrors hStarts place event hFollows
          rw [runOpenFragment, runOpenFragment]
          generalize stack.feed env handler place st event = fed
            at hFed ⊢
          generalize
            (stack.raise d.groups).feed env handler place st' event =
              fed' at hFed ⊢
          rcases fed with ⟨result, next, mid⟩
          rcases fed' with ⟨result', next', mid'⟩
          rcases hFed with ⟨hResult, hStack, hState⟩
          dsimp only at hResult hStack hState
          rw [hStack]
          cases hResult with
          | error hFault =>
              exact ⟨.error hFault, next.unwind_mirrors hState⟩
          | ok product? =>
              cases product? with
              | none => exact ih next hState
              | some product => exact ⟨.ok product, hState⟩

/- A fragment is read alike. -/
theorem runFragment_mirrors
    (hStarts : StartsAlike env d same handler)
    (root : Frame α)
    (expected? : Option String)
    (items : List Item) :
    Action.Mirrors env d same (Product.raise d.groups)
      (runFragment env handler root expected? items)
      (runFragment env handler (root.raise d.groups) expected?
        items) :=
  .bind (.ofExcept (.refl _)) fun rest _ _ hFollows =>
    runOpenFragment_mirrors hStarts rest (.ofOpenElement root) hFollows

------------------------------------------------------------
-- Stored elements
------------------------------------------------------------

/- An attribute of a matrix is taken alike. -/
theorem takeMatrixAttribute_moved
    (e : Element)
    (place : Location)
    (m : Matrix α)
    (a : Attribute) :
    Except.Alike id (takeMatrixAttribute e m a)
      (takeMatrixAttribute (e.moved place) m a) := by
  unfold takeMatrixAttribute
  split
  · exact e.read_moved place _ _ _
  · split
    · exact .ok m
    · exact .error rfl

/- The element of a matrix starts alike. -/
theorem startMatrix_moved
    (e : Element)
    (place : Location)
    (m : Matrix α) :
    Except.Alike id (startMatrix e m)
      (startMatrix (e.moved place) m) := by
  unfold startMatrix
  rw [Element.name_moved, Element.attributes_moved]
  split
  · exact .foldlM (takeMatrixAttribute_moved e place) m e.attributes
  · exact .error rfl

omit [Scalar α] in
/- An element inside a dictionary starts alike. -/
theorem startEntry_moved
    (e : Element)
    (place : Location)
    (current? : Option ResourceEntry) :
    Except.Alike id (startEntry e current?)
      (startEntry (e.moved place) current?) := by
  cases current? with
  | some entry => exact .ok _
  | none =>
      exact (e.required_moved place keyAttribute).bind fun key => .ok _

/- Elements inside a frame that draws nothing start alike. -/
theorem startStored_alike :
    StartsAlike env d same (startStored (α := α)) := by
  intro frame e place
  cases frame with
  | matrix m =>
      exact
        .thenPure (.ofExcept (startMatrix_moved e place m))
          fun _ => rfl
  | dictionary current? =>
      exact
        .thenPure (.ofExcept (startEntry_moved e place current?))
          fun _ => rfl
  | _ => exact .fail rfl

------------------------------------------------------------
-- Resources
------------------------------------------------------------

omit [Scalar α] in
/- The same markup is stored under a key. -/
theorem Action.resource_mirrors
    (key : String) :
    Action.Mirrors env d same id (Action.resource key)
      (Action.resource key) := by
  intro st st' hFollows
  unfold Action.resource
  rw [perform_ofEffect, perform_ofEffect, hFollows.scope]
  cases st.scope.get? key with
  | some markup => exact ⟨.ok markup, hFollows⟩
  | none => exact ⟨.error rfl, hFollows⟩

/- A stored matrix is read alike. -/
theorem storedTransform_mirrors
    (key : String) :
    Action.Mirrors env d same id (storedTransform env key)
      (storedTransform env key) := by
  unfold storedTransform
  refine (Action.resource_mirrors key).bind fun markup =>
    .bind
      (runFragment_mirrors startStored_alike (.matrix .identity) none _)
      fun product => ?_
  cases product <;> exact .pure rfl

/- A dictionary of its own part is read alike. -/
theorem loadDictionary_mirrors
    (source : String) :
    Action.Mirrors env d same id (loadDictionary env source)
      (loadDictionary env source) := by
  unfold loadDictionary
  dsimp only
  split
  · exact .fail rfl
  · exact
      .bind (.ofExcept (.refl _)) fun items =>
        .thenPure
          (runFragment_mirrors startStored_alike (.dictionary none) _
            items)
          fun _ => rfl

------------------------------------------------------------
-- Values
------------------------------------------------------------

omit [Scalar α] in
/- A value that follows its grammar is read and used alike. -/
theorem Action.Mirrors.readPure
    {β γ δ : Type}
    {g : γ → δ}
    {h : β → γ}
    {h' : β → δ}
    (e : Element)
    (place : Location)
    (name : String)
    (grammar : String → Option β)
    (value : String)
    (hNext : ∀ b, h' b = g (h b)) :
    Action.Mirrors env d same g
      (do
        let b ← Action.ofExcept (e.read name grammar value)
        Pure.pure (h b))
      (do
        let b ← Action.ofExcept ((e.moved place).read name grammar value)
        Pure.pure (h' b)) :=
  .thenPure (.ofExcept (e.read_moved place name grammar value)) hNext

/- A matrix or a reference to one is read alike. -/
theorem transformValue_mirrors
    (e : Element)
    (place : Location)
    (name value : String) :
    Action.Mirrors env d same id (transformValue env e name value)
      (transformValue env (e.moved place) name value) := by
  unfold transformValue
  split
  · exact storedTransform_mirrors _
  · exact .ofExcept (e.read_moved place _ _ _)

/- Path data or a reference to a geometry is read alike. -/
theorem geometryValue_mirrors
    (value : String) :
    Action.Mirrors env d same id (geometryValue env value)
      (geometryValue env value) := by
  unfold geometryValue
  split
  · exact
      (Action.resource_mirrors _).bind fun markup =>
        .ofExcept (.refl _)
  · exact .pure rfl

/- A color is read alike. -/
theorem colorValue_mirrors
    (e : Element)
    (place : Location)
    (name value : String) :
    Action.Mirrors env d same id (colorValue env e name value)
      (colorValue env (e.moved place) name value) := by
  intro st st' hFollows
  rcases ColorLiteral.resolve_serves (Cache.Alike.serves same _)
    hFollows.profiles value with
    ⟨hResolved, hProfiles⟩
  have hState :
      RenderState.Follows env d same
        { st with
          profiles :=
            (ColorLiteral.resolve (some env.profileSource) value
              st.profiles).2 }
        { st' with
          profiles :=
            (ColorLiteral.resolve (some env.profileSource) value
              st'.profiles).2 } :=
    ⟨hFollows.surface, hFollows.scope, hFollows.visualDepth,
      hFollows.fonts, hFollows.images, hProfiles⟩
  unfold colorValue
  rw [Action.perform_ofEffect, Action.perform_ofEffect]
  dsimp only
  rw [hResolved]
  split
  · exact ⟨.ok _, hState⟩
  · exact ⟨.error rfl, hState⟩
  · exact ⟨.ok none, hState⟩

omit [Scalar α] in
/- The brush under every key is looked up alike. -/
def LooksUpAlike
    (env : Environment α)
    (d : Shift α)
    (same : Bool)
    (lookup : BrushLookup α) : Prop :=
  ∀ key,
    Action.Mirrors env d same (Option.map (Pattern.raise d.groups))
      (lookup key) (lookup key)

/- A color or a reference to a brush is read alike. -/
theorem brushValue_mirrors
    {lookup : BrushLookup α}
    (hLookup : LooksUpAlike env d same lookup)
    (e : Element)
    (place : Location)
    (name value : String) :
    Action.Mirrors env d same (Option.map (Pattern.raise d.groups))
      (brushValue env lookup e name value)
      (brushValue env lookup (e.moved place) name value) := by
  unfold brushValue
  split
  · exact hLookup _
  · refine (colorValue_mirrors e place name value).thenPure
      fun color? => ?_
    cases color? <;> rfl

end

end FixedPage
