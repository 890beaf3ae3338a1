import FixedPage.Proofs.Markup.Elements
import FixedPage.Proofs.Mirror.Opening
import FixedPage.Proofs.Render.Run
import FixedPage.Proofs.Resource.Inline
import FixedPage.Proofs.Resource.Recorded

/-
  This file follows whole elements through a frame. What a frame
  makes of them does not depend on the frames below it, on the
  depth of the element that owns it, on places or on text.

  The elements inside an entry of a dictionary are only recorded;
  the entry is stored under its key when its root ends.

  Main declarations:
    * `Elements.take`
    * `Fed.Takes`
    * `Stack.feedAll_takes`
    * `Stack.Invariant.take`
    * `StartHandler.Records`
    * `Elements.take_recorded`
    * `Elements.take_stored`
-/

namespace FixedPage

open Markup

variable {α : Type} [Scalar α]

------------------------------------------------------------
-- Taking elements
------------------------------------------------------------

/- Lets a frame see the end of an element nested in its owner. -/
def Frame.receive
    (env : Environment α)
    (name : String)
    (product : Product α)
    (frame : Frame α) : Action α (Frame α) :=
  Action.ofEffect fun st =>
    (frame.endChild env name product st).map .ok id

/-
  What a frame makes of elements that are nested in its owner. If
  one of them fails, the frame is given up, after those on it.
-/
def Markup.Elements.take
    (env : Environment α)
    (handler : StartHandler α) :
    Elements → Frame α → Action α (Frame α)
| none, frame => pure frame
| element name attributes inner rest, frame => do
    let (frame, child?) ←
      (handler frame ⟨.nowhere, name, attributes⟩).onError frame.abort
    let frame ←
      match child? with
      | .none => do
          let frame ← inner.take env handler frame
          frame.receive env name .none
      | some child => do
          let product ←
            Action.onError
              (do
                let child ← inner.take env handler child
                (child.finish env).onError child.abort)
              frame.abort
          frame.receive env name product
    rest.take env handler frame

namespace Markup.Elements

variable {env : Environment α} {handler : StartHandler α}

/- Elements after elements are taken one after the other. -/
theorem take_append
    (first more : Elements)
    (frame : Frame α) :
    (first ++ more).take env handler frame =
      first.take env handler frame >>= more.take env handler := by
  induction first generalizing frame with
  | none => rw [none_append, take, pure_bind]
  | element name attributes inner rest _ ih =>
      rw [element_append, take, take, bind_assoc]
      congr 1
      funext ⟨frame, child?⟩
      cases child? with
      | none =>
          simp only [bind_assoc, ih]
      | some child =>
          simp only [bind_assoc, ih]

/- An element that does not start is not taken. -/
theorem take_ne_ok
    {name : String}
    {attributes : List Attribute}
    {inner rest : Elements}
    {frame frame' : Frame α}
    {st st' st'' : RenderState α}
    {fault : Error}
    (hFails :
      (handler frame ⟨.nowhere, name, attributes⟩).perform st =
        (.error fault, st')) :
    ((element name attributes inner rest).take env handler
      frame).perform st ≠ (.ok frame', st'') := by
  rw [take, Action.perform_bind, Action.perform_onError, hFails]
  exact nofun

/-
  What has happened when an element that owns a frame has been
  taken, and the others after it.
-/
theorem take_opened
    {name : String}
    {attributes : List Attribute}
    {inner rest : Elements}
    {frame next child frame' : Frame α}
    {st opened st' : RenderState α}
    (hStart :
      (handler frame ⟨.nowhere, name, attributes⟩).perform st =
        (.ok (next, some child), opened))
    (hOk :
      ((element name attributes inner rest).take env handler
        frame).perform st = (.ok frame', st')) :
    ∃ last full product done,
      (inner.take env handler child).perform opened =
          (.ok last, full) ∧
        (last.finish env).perform full = (.ok product, done) ∧
          (next.receive env name product >>=
              rest.take env handler).perform done =
            (.ok frame', st') := by
  rw [take, Action.perform_bind, Action.perform_onError, hStart] at hOk
  dsimp only at hOk
  rw [Action.perform_bind, Action.perform_onError,
    Action.perform_bind] at hOk
  generalize (inner.take env handler child).perform opened = outcome
    at hOk
  rcases outcome with ⟨fault | last, full⟩
  · cases hOk
  · dsimp only at hOk
    rw [Action.perform_onError] at hOk
    generalize hFinish : (last.finish env).perform full = outcome
      at hOk
    rcases outcome with ⟨fault | product, done⟩
    · cases hOk
    · exact ⟨last, full, product, done, rfl, hFinish, hOk⟩

end Markup.Elements

------------------------------------------------------------
-- Feeding
------------------------------------------------------------

namespace Stack

variable {env : Environment α} {handler : StartHandler α}
variable {items more : List (Location × Event)}
variable {stack next : Stack α} {st st' : RenderState α}

/- Text is passed over. -/
theorem feedAll_text
    (hText : tagsOf items = [])
    (more : List (Location × Event))
    (stack : Stack α)
    (st : RenderState α) :
    stack.feedAll env handler st (items ++ more) =
      stack.feedAll env handler st more := by
  induction items with
  | nil => rfl
  | cons item items ih =>
      rcases item with ⟨place, event⟩
      cases event with
      | text content => exact ih hText
      | startTag name attributes => cases hText
      | endTag name => cases hText

/- Events go on after those that are taken. -/
theorem feedAll_append
    (hOk : stack.feedAll env handler st items = ⟨.ok none, next, st'⟩)
    (more : List (Location × Event)) :
    stack.feedAll env handler st (items ++ more) =
      next.feedAll env handler st' more := by
  induction items generalizing stack st with
  | nil =>
      cases hOk
      rfl
  | cons item items ih =>
      rcases item with ⟨place, event⟩
      have hResult :
          (stack.feedAll env handler st
            ((place, event) :: items)).result = .ok none := by
        rw [hOk]
      rcases feedAll_cons hResult with ⟨mid, st₁, hFeed, hAll⟩
      rw [hAll] at hOk
      rw [List.cons_append, feedAll, hFeed]
      exact ih hOk

/- Nothing goes on after an event that fails. -/
theorem feedAll_append_error
    {fault : Error}
    (hError :
      stack.feedAll env handler st items = ⟨.error fault, next, st'⟩)
    (more : List (Location × Event)) :
    stack.feedAll env handler st (items ++ more) =
      ⟨.error fault, next, st'⟩ := by
  induction items generalizing stack st with
  | nil => cases hError
  | cons item items ih =>
      rcases item with ⟨place, event⟩
      rw [feedAll] at hError
      rw [List.cons_append, feedAll]
      generalize stack.feed env handler place st event = fed
        at hError ⊢
      rcases fed with ⟨result, mid, st₁⟩
      rcases result with fault' | _ | product
      · exact hError
      · exact ih hError
      · exact hError

/- An event that fails ends all. -/
theorem feedAll_cons_error
    {place : Location}
    {event : Event}
    {fault : Error}
    (hFeed :
      stack.feed env handler place st event =
        ⟨.error fault, next, st'⟩)
    (more : List (Location × Event)) :
    stack.feedAll env handler st ((place, event) :: more) =
      ⟨.error fault, next, st'⟩ := by
  rw [feedAll, hFeed]

/- An event that is taken is followed by the others. -/
theorem feedAll_cons_ok
    {place : Location}
    {event : Event}
    (hFeed :
      stack.feed env handler place st event = ⟨.ok none, next, st'⟩)
    (more : List (Location × Event)) :
    stack.feedAll env handler st ((place, event) :: more) =
      next.feedAll env handler st' more := by
  rw [feedAll, hFeed]

/- The top frame fails on an element that starts. -/
theorem feed_startTag_error
    {frame : Frame α}
    {place : Location}
    {name : String}
    {attributes : List Attribute}
    {fault : Error}
    (hStart :
      (handler frame ⟨place, name, attributes⟩).perform st =
        (.error fault, st'))
    (owner : Nat)
    (below : List (Entry α))
    (depth : Nat) :
    feed env handler place ⟨⟨frame, owner⟩ :: below, depth⟩ st
        (.startTag name attributes) =
      ⟨.error fault, ⟨⟨frame, owner⟩ :: below, depth + 1⟩, st'⟩ := by
  simp [feed, startElement, hStart]

/- The top frame sees an element that starts. -/
theorem feed_startTag_ok
    {frame frame' : Frame α}
    {child? : Option (Frame α)}
    {place : Location}
    {name : String}
    {attributes : List Attribute}
    (hStart :
      (handler frame ⟨place, name, attributes⟩).perform st =
        (.ok (frame', child?), st'))
    (owner : Nat)
    (below : List (Entry α))
    (depth : Nat) :
    feed env handler place ⟨⟨frame, owner⟩ :: below, depth⟩ st
        (.startTag name attributes) =
      ⟨.ok none,
        ⟨(child?.map fun child => ⟨child, depth + 1⟩).toList
          ++ ⟨frame', owner⟩ :: below, depth + 1⟩, st'⟩ := by
  simp [feed, startElement, hStart]

/- The top frame cannot be finished when its owner ends. -/
theorem feed_endTag_error
    {frame : Frame α}
    {fault : Error}
    (hFinish : (frame.finish env).perform st = (.error fault, st'))
    (place : Location)
    (name : String)
    (below : List (Entry α))
    (depth : Nat) :
    feed env handler place ⟨⟨frame, depth⟩ :: below, depth⟩ st
        (.endTag name) =
      ⟨.error fault, ⟨below, depth - 1⟩, frame.abort st'⟩ := by
  simp [feed, endElement, hFinish]

/- The frame below sees the product when the owner ends. -/
theorem feed_endTag_ok
    {frame : Frame α}
    {product : Product α}
    (hFinish : (frame.finish env).perform st = (.ok product, st'))
    (place : Location)
    (name : String)
    (parent : Entry α)
    (below : List (Entry α))
    (depth : Nat) :
    feed env handler place
        ⟨⟨frame, depth⟩ :: parent :: below, depth⟩ st
        (.endTag name) =
      ⟨.ok none,
        ⟨⟨(parent.frame.endChild env name product st').1,
          parent.owner⟩ :: below, depth - 1⟩,
        (parent.frame.endChild env name product st').2⟩ := by
  simp [feed, endElement, hFinish]

end Stack

/- A part ends when an event fails. -/
theorem runPart_feedAll_error
    {env : Environment α}
    {handler : StartHandler α}
    {items : List (Location × Event)}
    {stack next : Stack α}
    {st st' : RenderState α}
    {fault : Error}
    (hError :
      stack.feedAll env handler st items = ⟨.error fault, next, st'⟩)
    (rest : List Item) :
    runPart env handler stack st (items.map .ok ++ rest) =
      (.error fault, next.unwind st') := by
  induction items generalizing stack st with
  | nil => cases hError
  | cons item items ih =>
      rcases item with ⟨place, event⟩
      rw [Stack.feedAll] at hError
      rw [List.map_cons, List.cons_append, runPart]
      generalize stack.feed env handler place st event = fed
        at hError ⊢
      rcases fed with ⟨result, mid, st₁⟩
      rcases result with fault' | _ | product
      · cases hError
        rfl
      · exact ih hError
      · cases hError

------------------------------------------------------------
-- Feeding elements
------------------------------------------------------------

/-
  The events of elements have been fed to a frame that is owned
  at some depth, with other frames below it, in a state that is
  ahead. This came out as taking the elements did: the frame is
  back on top, or it and those above it are still to be given up.
-/
inductive Fed.Takes
    (env : Environment α)
    (d : Shift α)
    (same : Bool)
    (owner : Nat)
    (below : List (Entry α))
    (depth : Nat) :
    Except Error (Frame α) × RenderState α → Fed α → Prop
| ok
    {frame : Frame α}
    {st st' : RenderState α}
    (hState : st.Follows env d same st') :
    Takes env d same owner below depth (.ok frame, st)
      ⟨.ok none,
        ⟨⟨frame.raise d.groups, owner⟩ :: below, depth⟩, st'⟩
| error
    {fault fault' : Error}
    {above : List (Entry α)}
    {deep : Nat}
    {st st' : RenderState α}
    (hFault : fault'.unplaced = fault.unplaced)
    (hState :
      st.Follows env d same (Stack.unwind ⟨above, deep⟩ st')) :
    Takes env d same owner below depth (.error fault, st)
      ⟨.error fault', ⟨above ++ below, deep⟩, st'⟩

section

variable {env : Environment α} {d : Shift α} {same : Bool}
variable {handler : StartHandler α} {name : String}
variable {owner depth : Nat} {below : List (Entry α)}
variable {items more : List (Location × Event)}
variable {st st' : RenderState α}

omit [Scalar α] in
/- A frame is given up with those below it left on the stack. -/
theorem Fed.Takes.aborted
    {fault fault' : Error}
    (frame : Frame α)
    (deep : Nat)
    (hFault : fault'.unplaced = fault.unplaced)
    (hState : st.Follows env d same st') :
    Takes env d same owner below depth
      (.error fault, frame.abort st)
      ⟨.error fault', ⟨⟨frame.raise d.groups, owner⟩ :: below, deep⟩,
        st'⟩ := by
  change
    Takes env d same owner below depth _
      ⟨.error fault', ⟨[⟨frame.raise d.groups, owner⟩] ++ below, deep⟩,
        st'⟩
  exact .error hFault (frame.abort_mirrors hState)

/-
  What a frame makes of an element that ends and then of others
  comes out alike if what it makes of the others does.
-/
theorem Fed.Takes.receive
    {f : Frame α → Action α (Frame α)}
    (hNext :
      ∀ frame st st', st.Follows env d same st' →
        Takes env d same owner below depth ((f frame).perform st)
          (Stack.feedAll env handler
            ⟨⟨frame.raise d.groups, owner⟩ :: below, depth⟩ st' items))
    (product : Product α)
    (frame : Frame α)
    (hFollows : st.Follows env d same st') :
    Takes env d same owner below depth
      (Action.perform (frame.receive env name product >>= f) st)
      (Stack.feedAll env handler
        ⟨⟨((frame.raise d.groups).endChild env name
            (product.raise d.groups) st').1, owner⟩ :: below, depth⟩
        ((frame.raise d.groups).endChild env name
          (product.raise d.groups) st').2
        items) := by
  have hEnd := frame.endChild_mirrors name product hFollows
  rw [hEnd.1]
  exact hNext _ _ _ hEnd.2

/-
  An element that owns no frame: its elements are taken by the
  frame that sees it, and so is its end.
-/
theorem Fed.Takes.passed
    {x : Action α (Frame α)}
    {f : Frame α → Action α (Frame α)}
    {stack : Stack α}
    {gap : List (Location × Event)}
    {close : Location}
    (hOwner : owner ≤ depth)
    (hGap : tagsOf gap = [])
    (hInner :
      Takes env d same owner below (depth + 1) (x.perform st)
        (stack.feedAll env handler st' items))
    (hNext :
      ∀ frame st st', st.Follows env d same st' →
        Takes env d same owner below depth ((f frame).perform st)
          (Stack.feedAll env handler
            ⟨⟨frame.raise d.groups, owner⟩ :: below, depth⟩ st' more)) :
    Takes env d same owner below depth
      (Action.perform
        (do
          let frame ← x
          let frame ← frame.receive env name .none
          f frame)
        st)
      (stack.feedAll env handler st'
        (items ++ (gap ++ (close, .endTag name) :: more))) := by
  rw [Action.perform_bind]
  generalize x.perform st = outcome at hInner ⊢
  generalize hFed : stack.feedAll env handler st' items = fed at hInner
  cases hInner with
  | error hFault hState =>
      rw [Stack.feedAll_append_error hFed]
      exact .error hFault hState
  | ok hState =>
      have hInside : owner ≠ depth + 1 := by omega
      rw [Stack.feedAll_append hFed, Stack.feedAll_text hGap,
        Stack.feedAll_cons_ok (Stack.feed_endTag name hInside)]
      exact .receive hNext .none _ hState

/-
  An element that owns a frame: its elements are taken by that
  frame, which is finished when it ends. The frame below it sees
  the product, or is given up after it.
-/
theorem Fed.Takes.nested
    {x : Action α (Frame α)}
    {f : Frame α → Action α (Frame α)}
    {frame : Frame α}
    {stack : Stack α}
    {gap : List (Location × Event)}
    {close : Location}
    (hGap : tagsOf gap = [])
    (hInner :
      Takes env d same (depth + 1)
        (⟨frame.raise d.groups, owner⟩ :: below) (depth + 1)
        (x.perform st) (stack.feedAll env handler st' items))
    (hNext :
      ∀ frame st st', st.Follows env d same st' →
        Takes env d same owner below depth ((f frame).perform st)
          (Stack.feedAll env handler
            ⟨⟨frame.raise d.groups, owner⟩ :: below, depth⟩ st' more)) :
    Takes env d same owner below depth
      (Action.perform
        (do
          let product ←
            Action.onError
              (do
                let child ← x
                (child.finish env).onError child.abort)
              frame.abort
          let frame ← frame.receive env name product
          f frame)
        st)
      (stack.feedAll env handler st'
        (items ++ (gap ++ (close, .endTag name) :: more))) := by
  rw [Action.perform_bind, Action.perform_onError, Action.perform_bind]
  generalize x.perform st = outcome at hInner ⊢
  generalize hFed : stack.feedAll env handler st' items = fed at hInner
  cases hInner with
  | @error _ fault' above deep _ _ hFault hState =>
      have hAbove :
          above ++ ⟨frame.raise d.groups, owner⟩ :: below =
            (above ++ [⟨frame.raise d.groups, owner⟩]) ++ below := by
        simp
      rw [Stack.feedAll_append_error hFed, hAbove]
      refine .error hFault ?_
      unfold Stack.unwind
      dsimp only
      rw [List.foldl_append]
      exact frame.abort_mirrors hState
  | @ok child mid mid' hState =>
      rcases child.finish_mirrors mid mid' hState with
        ⟨hResult, hDone⟩
      rw [Stack.feedAll_append hFed, Stack.feedAll_text hGap]
      dsimp only
      rw [Action.perform_onError]
      generalize (child.finish env).perform mid = outcome
        at hResult hDone ⊢
      generalize hRight :
        ((child.raise d.groups).finish env).perform mid' = outcome'
        at hResult hDone
      rcases outcome with ⟨result, done⟩
      rcases outcome' with ⟨result', done'⟩
      cases hResult with
      | error hFault =>
          rw [Stack.feedAll_cons_error
            (Stack.feed_endTag_error hRight close name _ _)]
          exact .aborted frame depth hFault (child.abort_mirrors hDone)
      | ok product =>
          rw [Stack.feedAll_cons_ok
            (Stack.feed_endTag_ok hRight close name _ below _)]
          exact .receive hNext product frame hDone

/-
  Feeding the events of elements comes out as taking them, by
  induction on the elements. The frame of a nested element lies
  on the frame under way while its own elements are fed.
-/
theorem Stack.feedAll_takes
    (hStarts : StartsAlike env d same handler)
    (elements : Elements)
    (hTags : tagsOf items = elements.tags)
    (frame : Frame α)
    (hOwner : owner ≤ depth)
    (hFollows : st.Follows env d same st') :
    Fed.Takes env d same owner below depth
      ((elements.take env handler frame).perform st)
      (feedAll env handler
        ⟨⟨frame.raise d.groups, owner⟩ :: below, depth⟩ st' items) := by
  induction elements generalizing items frame owner depth below st
    st' with
  | none =>
      have hFed :
          feedAll env handler
              ⟨⟨frame.raise d.groups, owner⟩ :: below, depth⟩ st'
              items =
            ⟨.ok none,
              ⟨⟨frame.raise d.groups, owner⟩ :: below, depth⟩,
              st'⟩ := by
        rw [← List.append_nil items, feedAll_text hTags]
        rfl
      rw [hFed]
      exact .ok hFollows
  | element name attributes inner rest ihInner ihRest =>
      rcases tagsOf_eq_element hTags with
        ⟨lead, place, within, gap, close, tail, rfl, hLead, hWithin,
          hGap, hTail⟩
      have hNext :
          ∀ (frame : Frame α) (st st' : RenderState α),
            st.Follows env d same st' →
              Fed.Takes env d same owner below depth
                ((rest.take env handler frame).perform st)
                (feedAll env handler
                  ⟨⟨frame.raise d.groups, owner⟩ :: below, depth⟩
                  st' tail) :=
        fun frame _ _ => ihRest hTail frame hOwner
      rcases
        hStarts frame ⟨.nowhere, name, attributes⟩ place st st'
          hFollows with
        ⟨hResult, hState⟩
      rw [feedAll_text hLead, Elements.take, Action.perform_bind,
        Action.perform_onError]
      generalize
        (handler frame ⟨.nowhere, name, attributes⟩).perform st =
          outcome at hResult hState ⊢
      generalize hRight :
        Action.perform (handler (frame.raise d.groups) _) st' =
          outcome' at hResult hState
      rcases outcome with ⟨result, mid⟩
      rcases outcome' with ⟨result', mid'⟩
      change
        (handler (frame.raise d.groups)
          ⟨place, name, attributes⟩).perform st' = _ at hRight
      cases hResult with
      | error hFault =>
          rw [feedAll_cons_error
            (feed_startTag_error hRight owner below depth)]
          exact .aborted frame (depth + 1) hFault hState
      | ok frames =>
          rcases frames with ⟨frame', child?⟩
          rw [feedAll_cons_ok
            (feed_startTag_ok hRight owner below depth)]
          cases child? with
          | none =>
              exact
                .passed hOwner hGap
                  (ihInner hWithin frame' (by omega) hState) hNext
          | some child =>
              exact
                .nested hGap
                  (ihInner hWithin child (Nat.le_refl _) hState)
                  hNext

omit [Scalar α] in
/- Elements that are taken leave the stack but for the top frame. -/
theorem Fed.Takes.eq_ok
    {frame : Frame α}
    {fed : Fed α}
    (hTakes :
      Takes env .zero true owner below depth (.ok frame, st) fed) :
    fed = ⟨.ok none, ⟨⟨frame, owner⟩ :: below, depth⟩, st⟩ := by
  cases hTakes with
  | ok hState => rw [hState.eq, Shift.groups_zero, Frame.raise_zero]

omit [Scalar α] in
/- Elements that fail leave frames that are still to be given up. -/
theorem Fed.Takes.eq_error
    {fault : Error}
    {fed : Fed α}
    (hTakes :
      Takes env .zero true owner below depth (.error fault, st) fed) :
    ∃ fault' above deep st',
      fed = ⟨.error fault', ⟨above ++ below, deep⟩, st'⟩ ∧
        fault'.unplaced = fault.unplaced ∧
          Stack.unwind ⟨above, deep⟩ st' = st := by
  cases hTakes with
  | error hFault hState =>
      exact ⟨_, _, _, _, rfl, hFault, hState.eq⟩

/- Feeding the events of elements in the state they are taken in. -/
theorem Stack.feedAll_take
    (hStarts : StartsAlike env .zero true handler)
    {elements : Elements}
    (hTags : tagsOf items = elements.tags)
    (frame : Frame α)
    (hOwner : owner ≤ depth)
    (below : List (Entry α))
    (st : RenderState α) :
    Fed.Takes env .zero true owner below depth
      ((elements.take env handler frame).perform st)
      (feedAll env handler ⟨⟨frame, owner⟩ :: below, depth⟩ st
        items) := by
  have hTakes : Fed.Takes env .zero true owner below depth _ _ :=
    feedAll_takes hStarts elements hTags frame hOwner (.refl env st)
  rwa [Shift.groups_zero, Frame.raise_zero] at hTakes

/-
  Events of elements that are taken leave the stack as it was but
  for the top frame, which has taken the elements.
-/
theorem Stack.take_of_feedAll
    (hStarts : StartsAlike env .zero true handler)
    {elements : Elements}
    (hTags : tagsOf items = elements.tags)
    {top : Entry α}
    {stack : Stack α}
    (hOwner : top.owner ≤ depth)
    (hFed :
      feedAll env handler ⟨top :: below, depth⟩ st items =
        ⟨.ok none, stack, st'⟩) :
    ∃ frame,
      (elements.take env handler top.frame).perform st =
          (.ok frame, st') ∧
        stack = ⟨⟨frame, top.owner⟩ :: below, depth⟩ := by
  have hTakes :=
    feedAll_take hStarts hTags top.frame hOwner below st
  rw [hFed] at hTakes
  generalize (elements.take env handler top.frame).perform st = outcome
    at hTakes ⊢
  rcases outcome with ⟨fault | frame, mid⟩
  · rcases hTakes.eq_error with ⟨_, _, _, _, hError, _, _⟩
    cases hError
  · cases hTakes.eq_ok
    exact ⟨frame, rfl, rfl⟩

/-
  What a frame makes of elements is mirrored in a state that is
  ahead: both come out as feeding the tags to the raised frame.
-/
theorem Markup.Elements.take_mirrors
    (hStarts : ∀ d same, StartsAlike env d same handler)
    (elements : Elements)
    (frame : Frame α) :
    Action.Mirrors env d same (Frame.raise d.groups)
      (elements.take env handler frame)
      (elements.take env handler (frame.raise d.groups)) := by
  intro st st' hFollows
  have hTags :
      tagsOf (elements.tags.map (Prod.mk .nowhere)) =
        elements.tags := by
    apply tagsOf_eq_tags
    rw [List.map_map]
    exact List.map_id _
  have hBehind : Fed.Takes env d same 0 [] 0 _ _ :=
    Stack.feedAll_takes (hStarts d same) elements hTags frame
      (Nat.le_refl 0) hFollows
  have hExact :=
    Stack.feedAll_take (hStarts .zero true) hTags
      (frame.raise d.groups) (Nat.le_refl 0) [] st'
  generalize (elements.take env handler frame).perform st = outcome
    at hBehind ⊢
  generalize
    (elements.take env handler (frame.raise d.groups)).perform st' =
      outcome' at hExact ⊢
  rcases outcome' with ⟨fault' | frame', mid'⟩
  · rcases hExact.eq_error with
      ⟨fault₁, above, deep, st₁, hFed, hFault, hUnwound⟩
    rw [hFed] at hBehind
    generalize hStack : Stack.mk (above ++ []) deep = stack at hBehind
    cases hBehind with
    | error hOther hState =>
        rw [List.append_nil, List.append_nil] at hStack
        rw [← hStack, hUnwound] at hState
        exact ⟨.error (hFault.symm.trans hOther), hState⟩
  · rw [hExact.eq_ok] at hBehind
    cases hBehind with
    | @ok frame₁ _ _ hState => exact ⟨.ok frame₁, hState⟩

end

------------------------------------------------------------
-- Invariants
------------------------------------------------------------

/-
  What every step of a run keeps is kept when a frame takes
  elements. If they fail, it holds of what is below the frame.
-/
theorem Stack.Invariant.take
    {env : Environment α}
    {handler : StartHandler α}
    {I : List (Entry α) → RenderState α → Prop}
    (hInv : Invariant env handler I)
    (elements : Elements)
    (frame : Frame α)
    {owner : Nat}
    {below : List (Entry α)}
    {st : RenderState α}
    (hHolds : I (⟨frame, owner⟩ :: below) st) :
    match (elements.take env handler frame).perform st with
    | (.ok frame', st') => I (⟨frame', owner⟩ :: below) st'
    | (.error _, st') => I below st' := by
  induction elements generalizing frame owner below st with
  | none => exact hHolds
  | element name attributes inner rest ihInner ihRest =>
      have hStart :=
        hInv.start ⟨frame, owner⟩ below 0 ⟨.nowhere, name, attributes⟩
          st hHolds
      rw [Elements.take, Action.perform_bind, Action.perform_onError]
      generalize
        (handler frame ⟨.nowhere, name, attributes⟩).perform st =
          outcome at hStart ⊢
      rcases outcome with ⟨fault | ⟨frame', child?⟩, mid⟩
      · exact hInv.abort ⟨frame, owner⟩ below mid hStart
      · cases child? with
        | none =>
            have hTaken := ihInner frame' hStart
            dsimp only
            rw [Action.perform_bind]
            generalize
              (inner.take env handler frame').perform mid = outcome
              at hTaken ⊢
            rcases outcome with ⟨fault | last, st₁⟩
            · exact hTaken
            · exact
                ihRest _
                  (hInv.child ⟨last, owner⟩ below name st₁ hTaken)
        | some child =>
            have hTaken := ihInner child hStart
            dsimp only
            rw [Action.perform_bind, Action.perform_onError,
              Action.perform_bind]
            generalize
              (inner.take env handler child).perform mid = outcome
              at hTaken ⊢
            rcases outcome with ⟨fault | last, st₁⟩
            · exact hInv.abort ⟨frame', owner⟩ below st₁ hTaken
            · dsimp only
              rw [Action.perform_onError]
              cases hFinish : (last.finish env).perform st₁ with
              | mk result st₂ =>
                  cases result with
                  | error fault =>
                      have hSpoiled :=
                        hInv.spoil _ _ st₁ st₂ fault hTaken hFinish
                      exact
                        hInv.abort ⟨frame', owner⟩ below _
                          (hInv.abort _ _ _ hSpoiled)
                  | ok product =>
                      exact
                        ihRest _
                          (hInv.hand _ ⟨frame', owner⟩ below name st₁
                            st₂ product hTaken hFinish)

end FixedPage

namespace FixedPage

open Markup

------------------------------------------------------------
-- Entries
------------------------------------------------------------

/- The tags of elements leave an entry open as deep as it was. -/
theorem ResourceEntry.takeAll?_tags
    (elements : Elements)
    (entry : ResourceEntry) :
    ∃ written,
      entry.takeAll? elements.tags =
        some { entry with written := written } := by
  induction elements generalizing entry with
  | none => exact ⟨entry.written, rfl⟩
  | element name attributes inner rest ihInner ihRest =>
      rcases ihInner (entry.startChild name attributes) with
        ⟨within, hInner⟩
      rcases ihRest
        { entry with written := within ++ endTagText name ++ "\n" } with
        ⟨written, hRest⟩
      refine ⟨written, ?_⟩
      rw [Elements.tags, takeAll?_cons, take?, Option.bind_some,
        takeAll?_append, hInner, Option.bind_some, takeAll?_cons]
      exact hRest

------------------------------------------------------------
-- Dictionaries
------------------------------------------------------------

variable {α : Type} [Scalar α]

/- A dictionary starts elements as it does in its own part. -/
def StartHandler.Records
    (handler : StartHandler α) : Prop :=
  ∀ (current? : Option ResourceEntry) (e : Element),
    handler (.dictionary current?) e =
      startStored (.dictionary current?) e

/- Dictionaries of a page record. -/
theorem startElement_records
    (env : Environment α)
    (lookup : BrushLookup α) :
    StartHandler.Records (startElement env lookup) :=
  fun _ _ => rfl

/- Dictionaries of their own parts record. -/
theorem startStored_records :
    StartHandler.Records (startStored (α := α)) :=
  fun _ _ => rfl

variable {env : Environment α} {handler : StartHandler α}

/- Elements inside an entry are recorded, and nothing else. -/
theorem Markup.Elements.take_recorded
    (hRecords : StartHandler.Records handler)
    (elements : Elements)
    (entry : ResourceEntry)
    (st : RenderState α) :
    (elements.take env handler (.dictionary (some entry))).perform
        st =
      (.ok (.dictionary (entry.takeAll? elements.tags)), st) := by
  induction elements generalizing entry with
  | none => rfl
  | element name attributes inner rest ihInner ihRest =>
      have hStart :
          (startStored (.dictionary (some entry))
              ⟨.nowhere, name, attributes⟩).perform st =
            (.ok
              (.dictionary (some (entry.startChild name attributes)),
                .none), st) :=
        rfl
      rcases
        ResourceEntry.takeAll?_tags inner
          (entry.startChild name attributes) with
        ⟨within, hInner⟩
      have hEnd :
          (Frame.receive env name .none
              (.dictionary
                (some
                  { entry.startChild name attributes with
                    written := within }))).perform st =
            (.ok
              (.dictionary
                (some
                  { entry with
                    written :=
                      within ++ ResourceEntry.endTagText name
                        ++ "\n" })), st) :=
        rfl
      rw [Elements.take, hRecords, Action.perform_bind,
        Action.perform_onError, hStart]
      dsimp only
      rw [Action.perform_bind, ihInner, hInner]
      dsimp only
      rw [Action.perform_bind, hEnd]
      dsimp only
      rw [ihRest, Elements.tags, ResourceEntry.takeAll?_cons,
        ResourceEntry.take?, Option.bind_some,
        ResourceEntry.takeAll?_append, hInner, Option.bind_some,
        ResourceEntry.takeAll?_cons]
      rfl

/- An element with a key is stored in the innermost dictionary. -/
theorem Markup.Elements.take_stored
    (hRecords : StartHandler.Records handler)
    {name key : String}
    {attributes : List Attribute}
    (hKey : valueOf? attributes keyAttribute = some key)
    (inner : Elements)
    (st : RenderState α) :
    ∃ entry,
      (ResourceEntry.begin key name attributes).takeAll? inner.tags =
          some entry ∧
        ((Elements.element name attributes inner .none).take env
            handler (.dictionary .none)).perform st =
          (.ok (.dictionary .none),
            { st with scope := (st.scope.set key entry.markup).2 }) := by
  rcases
    ResourceEntry.takeAll?_tags inner
      (ResourceEntry.begin key name attributes) with
    ⟨within, hInner⟩
  refine ⟨_, hInner, ?_⟩
  have hStart :
      (startStored (α := α) (.dictionary .none)
          ⟨.nowhere, name, attributes⟩).perform st =
        (.ok
          (.dictionary
            (some (ResourceEntry.begin key name attributes)),
            .none), st) := by
    simp [startStored, startEntry, Element.required, Element.value?,
      hKey]
    rfl
  rw [Elements.take, hRecords, Action.perform_bind,
    Action.perform_onError, hStart]
  dsimp only
  rw [Action.perform_bind, take_recorded hRecords, hInner]
  rfl

end FixedPage
