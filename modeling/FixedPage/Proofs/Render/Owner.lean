import FixedPage.Proofs.Render.Active

/-
  This file follows the owners of the frames on a stack: the
  depths of elements that are open, one inside the other.

  Main declarations:
    * `Stack.Ordered`
    * `Stack.Ordered.feed`
    * `Active.ordered`
-/

namespace FixedPage

open Markup

variable {α : Type}

------------------------------------------------------------
-- Order
------------------------------------------------------------

/-
  The owners of the frames on a stack are open: each is outside
  of the one above it, and none is deeper than the open element.
-/
structure Stack.Ordered
    (stack : Stack α) : Prop where
  bound : ∀ entry ∈ stack.entries, entry.owner ≤ stack.depth
  nested : (stack.entries.map Entry.owner).Pairwise (· > ·)

namespace Stack.Ordered

variable {top : Entry α} {below : List (Entry α)} {depth : Nat}

/- There are no frames. -/
theorem empty :
    Ordered (⟨[], depth⟩ : Stack α) :=
  ⟨by simp, by simp⟩

/- A frame alone on its stack is in order. -/
theorem root
    (frame : Frame α)
    {owner : Nat}
    (hOwner : owner ≤ depth) :
    Ordered ⟨[⟨frame, owner⟩], depth⟩ :=
  ⟨by simpa using hOwner, by simp⟩

/- The frames on a stack may change, but not their owners. -/
theorem retop
    (frame : Frame α)
    (hOrdered : Ordered ⟨top :: below, depth⟩) :
    Ordered ⟨⟨frame, top.owner⟩ :: below, depth⟩ :=
  ⟨by simpa using hOrdered.bound, by simpa using hOrdered.nested⟩

/- The open element may be deeper. -/
theorem deeper
    {entries : List (Entry α)}
    (hOrdered : Ordered ⟨entries, depth⟩) :
    Ordered ⟨entries, depth + 1⟩ :=
  ⟨fun entry hMem =>
      Nat.le_succ_of_le (hOrdered.bound entry hMem),
    hOrdered.nested⟩

/- The owner of the top frame is inside of those below. -/
theorem inside
    (hOrdered : Ordered ⟨top :: below, depth⟩) :
    ∀ entry ∈ below, entry.owner < top.owner := by
  intro entry hMem
  have hNested := hOrdered.nested
  rw [List.map_cons, List.pairwise_cons] at hNested
  exact hNested.1 _ (List.mem_map_of_mem hMem)

/- The element around may be the open one again. -/
theorem shallower
    (hOrdered : Ordered ⟨top :: below, depth⟩)
    (hOther : top.owner ≠ depth) :
    Ordered ⟨top :: below, depth - 1⟩ := by
  have hTop : top.owner ≤ depth := hOrdered.bound top (.head _)
  refine ⟨fun entry hMem => ?_, hOrdered.nested⟩
  change entry.owner ≤ depth - 1
  rcases List.mem_cons.mp hMem with rfl | hBelow
  · omega
  · have hInside := hOrdered.inside entry hBelow
    omega

/- A frame may be given up while its owner is open. -/
theorem dropped
    (hOrdered : Ordered ⟨top :: below, depth⟩) :
    Ordered ⟨below, depth⟩ :=
  ⟨fun entry hMem => hOrdered.bound entry (.tail _ hMem),
    (List.pairwise_cons.mp hOrdered.nested).2⟩

/- The frames below a frame are in order when its owner ends. -/
theorem tail
    (hOrdered : Ordered ⟨top :: below, depth⟩)
    (hOwner : top.owner = depth) :
    Ordered ⟨below, depth - 1⟩ := by
  refine ⟨fun entry hMem => ?_, hOrdered.dropped.nested⟩
  have hInside := hOrdered.inside entry hMem
  change entry.owner ≤ depth - 1
  omega

/- The frame of the element that starts is owned by it. -/
theorem push
    (child : Frame α)
    (hOrdered : Ordered ⟨top :: below, depth⟩) :
    Ordered ⟨⟨child, depth + 1⟩ :: top :: below, depth + 1⟩ := by
  refine ⟨?_, ?_⟩
  · intro entry hMem
    rcases List.mem_cons.mp hMem with rfl | hBelow
    · exact Nat.le_refl _
    · exact hOrdered.deeper.bound entry hBelow
  · rw [List.map_cons, List.pairwise_cons]
    refine ⟨fun owner hMem => ?_, hOrdered.nested⟩
    rcases List.mem_map.mp hMem with ⟨entry, hBelow, rfl⟩
    exact Nat.lt_succ_of_le (hOrdered.bound entry hBelow)

section

variable [Scalar α]

/- An event leaves the frames in order. -/
theorem feed
    {stack : Stack α}
    (hOrdered : stack.Ordered)
    (env : Environment α)
    (handler : StartHandler α)
    (place : Location)
    (event : Event)
    (st : RenderState α) :
    (stack.feed env handler place st event).stack.Ordered := by
  rcases stack with ⟨entries, depth⟩
  cases event with
  | text content => exact hOrdered
  | startTag name attributes =>
      cases entries with
      | nil => exact .empty
      | cons top below =>
          rw [Stack.feed, startElement]
          dsimp only
          generalize
            (handler top.frame ⟨place, name, attributes⟩).perform st =
              outcome
          rcases outcome with ⟨fault | ⟨frame, child?⟩, st'⟩
          · exact hOrdered.deeper
          · cases child? with
            | none => exact (hOrdered.retop frame).deeper
            | some child => exact (hOrdered.retop frame).push child
  | endTag name =>
      cases entries with
      | nil => exact .empty
      | cons top below =>
          rw [Stack.feed, endElement]
          dsimp only
          by_cases hOwner : top.owner = depth
          · have hTail := hOrdered.tail hOwner
            rw [if_neg (by simpa using hOwner)]
            generalize (top.frame.finish env).perform st = outcome
            rcases outcome with ⟨fault | product, st'⟩
            · exact hTail
            · cases below with
              | nil => exact .empty
              | cons parent below => exact hTail.retop _
          · rw [if_pos (by simpa using hOwner)]
            exact (hOrdered.retop _).shallower hOwner

end

end Stack.Ordered

------------------------------------------------------------
-- Runs under way
------------------------------------------------------------

/- The frames of the innermost run under way are in order. -/
theorem Active.ordered
    [Scalar α]
    {env : Environment α}
    {first run : Run α}
    {outer : List (Run α)}
    {st₀ st : RenderState α}
    (hFirst : first.stack.Ordered)
    (hActive : Active env first st₀ (run :: outer) st) :
    run.stack.Ordered := by
  generalize hRuns : run :: outer = runs at hActive
  induction hActive generalizing run outer with
  | start =>
      cases hRuns
      exact hFirst
  | @step script stack _ place event rest _ _ now _ _ hFed _ ih =>
      cases hRuns
      have hStack : stack.Ordered := ih rfl
      have hNext :=
        hStack.feed env (script.handler env) place event now
      rwa [hFed] at hNext
  | @fail script stack _ place event _ _ _ now _ _ hFed ih =>
      cases hRuns
      have hStack : stack.Ordered := ih rfl
      have hNext :=
        hStack.feed env (script.handler env) place event now
      rwa [hFed] at hNext
  | @fault _ stack _ _ _ _ _ ih =>
      cases hRuns
      change stack.Ordered
      exact ih rfl
  | @truncated _ stack _ _ _ _ ih =>
      cases hRuns
      change stack.Ordered
      exact ih rfl
  | unwound _ ih =>
      cases hRuns
      exact (ih rfl).dropped
  | brush _ _ _ _ _ =>
      cases hRuns
      exact .root _ (Nat.le_refl 1)
  | matrix _ _ _ _ _ =>
      cases hRuns
      exact .root _ (Nat.le_refl 1)
  | dictionary _ _ _ _ _ _ _ =>
      cases hRuns
      exact .root _ (Nat.le_refl 1)

end FixedPage
