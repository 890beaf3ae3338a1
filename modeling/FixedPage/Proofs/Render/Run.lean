import FixedPage.Proofs.Render.Effect

/-
  This file carries a property of the frames and the state from
  one event to a whole run. What has to be shown is what an
  element that starts, a child that ends, a frame that is
  finished and a frame that is given up do to the property. Where
  there is no fault, it is said once what an event does to the
  frames of a stack.

  Main declarations:
    * `Stack.Invariant`
    * `Stack.Invariant.feed`
    * `Stack.Takes`
    * `Stack.takes_of_feed`
    * `Stack.Invariant.runOpenFragment`
    * `Stack.Invariant.runPart`
-/

namespace FixedPage

open Markup

variable {α : Type} [Scalar α]

------------------------------------------------------------
-- Invariants
------------------------------------------------------------

/-
  A property of the entries of a stack, the top one first, and
  the state that every step of a run keeps. A frame that fails
  to finish still has the property before it is given up.
-/
structure Stack.Invariant
    (env : Environment α)
    (handler : StartHandler α)
    (I : List (Entry α) → RenderState α → Prop) : Prop where
  start :
    ∀ (top : Entry α) (below : List (Entry α)) (depth : Nat)
      (e : Element) (st : RenderState α),
      I (top :: below) st →
        match (handler top.frame e).perform st with
        | (.error _, st') => I (top :: below) st'
        | (.ok (frame, child?), st') =>
            I ((child?.map fun child => ⟨child, depth⟩).toList
                ++ ⟨frame, top.owner⟩ :: below) st'
  child :
    ∀ (top : Entry α) (below : List (Entry α)) (name : String)
      (st : RenderState α),
      I (top :: below) st →
        I (⟨(top.frame.endChild env name .none st).1, top.owner⟩
            :: below)
          (top.frame.endChild env name .none st).2
  root :
    ∀ (top : Entry α) (st st' : RenderState α)
      (product : Product α),
      I [top] st →
        (top.frame.finish env).perform st = (.ok product, st') →
          I [] st'
  hand :
    ∀ (top parent : Entry α) (below : List (Entry α))
      (name : String) (st st' : RenderState α)
      (product : Product α),
      I (top :: parent :: below) st →
        (top.frame.finish env).perform st = (.ok product, st') →
          I (⟨(parent.frame.endChild env name product st').1,
              parent.owner⟩ :: below)
            (parent.frame.endChild env name product st').2
  spoil :
    ∀ (top : Entry α) (below : List (Entry α))
      (st st' : RenderState α) (fault : Error),
      I (top :: below) st →
        (top.frame.finish env).perform st = (.error fault, st') →
          I (top :: below) st'
  abort :
    ∀ (top : Entry α) (below : List (Entry α))
      (st : RenderState α),
      I (top :: below) st → I below (top.frame.abort st)

namespace Stack.Invariant

variable {env : Environment α} {handler : StartHandler α}
variable {I : List (Entry α) → RenderState α → Prop}

------------------------------------------------------------
-- Steps
------------------------------------------------------------

/- An event keeps the property. -/
theorem feed
    (hInv : Invariant env handler I)
    (place : Location)
    (event : Event)
    (stack : Stack α)
    (st : RenderState α)
    (hHolds : I stack.entries st) :
    I (stack.feed env handler place st event).stack.entries
      (stack.feed env handler place st event).state := by
  rcases stack with ⟨entries, depth⟩
  cases event with
  | text content => exact hHolds
  | startTag name attributes =>
      cases entries with
      | nil => exact hHolds
      | cons top below =>
          have hStart :=
            hInv.start top below (depth + 1)
              ⟨place, name, attributes⟩ st hHolds
          unfold Stack.feed startElement
          dsimp only
          split <;> simp_all
  | endTag name =>
      cases entries with
      | nil => exact hHolds
      | cons top below =>
          unfold Stack.feed endElement
          dsimp only
          split
          · exact hInv.child top below name st hHolds
          · split
            · rename_i hFinish
              exact hInv.abort _ _ _
                (hInv.spoil top _ st _ _ hHolds hFinish)
            · rename_i hFinish
              exact hInv.root top st _ _ hHolds hFinish
            · rename_i hFinish
              exact hInv.hand top _ _ name st _ _ hHolds hFinish

/- Giving up every frame keeps the property. -/
theorem unwind
    (hInv : Invariant env handler I)
    (stack : Stack α)
    (st : RenderState α)
    (hHolds : I stack.entries st) :
    I [] (stack.unwind st) := by
  rcases stack with ⟨entries, depth⟩
  unfold Stack.unwind
  dsimp only at *
  induction entries generalizing st with
  | nil => exact hHolds
  | cons top below ih =>
      exact ih _ (hInv.abort top below st hHolds)

end Stack.Invariant

------------------------------------------------------------
-- Events
------------------------------------------------------------

/-
  What becomes of a stack that takes an event without a fault,
  as a matter of its frames.
-/
inductive Stack.Takes
    (env : Environment α)
    (handler : StartHandler α)
    (place : Location) :
    Stack α → RenderState α → Event → Option (Product α) →
      Stack α → RenderState α → Prop
| text
    {stack : Stack α}
    {st : RenderState α}
    {content : String} :
    Takes env handler place stack st (.text content) none stack st
| seen
    {top frame : Frame α}
    {owner depth : Nat}
    {below : List (Entry α)}
    {name : String}
    {attributes : List Attribute}
    {st st' : RenderState α}
    (hStart :
      (handler top ⟨place, name, attributes⟩).perform st =
        (.ok (frame, none), st')) :
    Takes env handler place ⟨⟨top, owner⟩ :: below, depth⟩ st
      (.startTag name attributes) none
      ⟨⟨frame, owner⟩ :: below, depth + 1⟩ st'
| owned
    {top frame child : Frame α}
    {owner depth : Nat}
    {below : List (Entry α)}
    {name : String}
    {attributes : List Attribute}
    {st st' : RenderState α}
    (hStart :
      (handler top ⟨place, name, attributes⟩).perform st =
        (.ok (frame, some child), st')) :
    Takes env handler place ⟨⟨top, owner⟩ :: below, depth⟩ st
      (.startTag name attributes) none
      ⟨⟨child, depth + 1⟩ :: ⟨frame, owner⟩ :: below, depth + 1⟩ st'
| inside
    {top : Frame α}
    {owner depth : Nat}
    {below : List (Entry α)}
    {name : String}
    {st : RenderState α}
    (hOwner : owner ≠ depth) :
    Takes env handler place ⟨⟨top, owner⟩ :: below, depth⟩ st
      (.endTag name) none
      ⟨⟨(top.endChild env name .none st).1, owner⟩ :: below, depth - 1⟩
      (top.endChild env name .none st).2
| finished
    {top parent : Frame α}
    {owner depth : Nat}
    {below : List (Entry α)}
    {name : String}
    {product : Product α}
    {st done : RenderState α}
    (hDone : (top.finish env).perform st = (.ok product, done)) :
    Takes env handler place
      ⟨⟨top, depth⟩ :: ⟨parent, owner⟩ :: below, depth⟩ st
      (.endTag name) none
      ⟨⟨(parent.endChild env name product done).1, owner⟩ :: below,
        depth - 1⟩
      (parent.endChild env name product done).2
| left
    {top : Frame α}
    {depth : Nat}
    {name : String}
    {product : Product α}
    {st done : RenderState α}
    (hDone : (top.finish env).perform st = (.ok product, done)) :
    Takes env handler place ⟨[⟨top, depth⟩], depth⟩ st
      (.endTag name) (some product) ⟨[], depth - 1⟩ done

/- A stack that is fed takes the event, unless there is a fault. -/
theorem Stack.takes_of_feed
    {env : Environment α}
    {handler : StartHandler α}
    {place : Location}
    {stack stack' : Stack α}
    {event : Event}
    {product? : Option (Product α)}
    {st st' : RenderState α}
    (hFed :
      stack.feed env handler place st event =
        ⟨.ok product?, stack', st'⟩) :
    Takes env handler place stack st event product? stack' st' := by
  rcases stack with ⟨entries, depth⟩
  cases event with
  | text content =>
      cases hFed
      exact .text
  | startTag name attributes =>
      rcases entries with _ | ⟨⟨top, owner⟩, below⟩
      · cases hFed
      simp only [feed, startElement] at hFed
      rcases hStart : (handler top ⟨place, name, attributes⟩).perform st
        with ⟨fault | ⟨frame, _ | child⟩, now⟩
      · rw [hStart] at hFed
        cases hFed
      · rw [hStart] at hFed
        cases hFed
        exact .seen hStart
      · rw [hStart] at hFed
        cases hFed
        exact .owned hStart
  | endTag name =>
      rcases entries with _ | ⟨⟨top, owner⟩, below⟩
      · cases hFed
      simp only [feed, endElement] at hFed
      by_cases hOwner : owner = depth
      · subst hOwner
        rw [if_neg (by simp)] at hFed
        rcases hDone : (top.finish env).perform st with
          ⟨fault | product, done⟩
        · rw [hDone] at hFed
          cases hFed
        · rw [hDone] at hFed
          rcases below with _ | ⟨⟨parent, owner⟩, below⟩
          · cases hFed
            exact .left hDone
          · cases hFed
            exact .finished hDone
      · rw [if_pos (by simpa using hOwner)] at hFed
        cases hFed
        exact .inside hOwner

/- There is a product only when no frame is left. -/
theorem Stack.entries_of_product
    {env : Environment α}
    {handler : StartHandler α}
    {place : Location}
    {event : Event}
    {stack : Stack α}
    {st : RenderState α}
    {product : Product α}
    (hProduct :
      (stack.feed env handler place st event).result =
        .ok (some product)) :
    (stack.feed env handler place st event).stack.entries = [] := by
  rcases hFed : stack.feed env handler place st event with
    ⟨result, stack', st'⟩
  rw [hFed] at hProduct
  cases hProduct
  cases takes_of_feed hFed
  rfl

------------------------------------------------------------
-- Runs
------------------------------------------------------------

namespace Stack.Invariant

variable {env : Environment α} {handler : StartHandler α}
variable {I : List (Entry α) → RenderState α → Prop}

/- The run of a fragment keeps the property. -/
theorem runOpenFragment
    (hInv : Invariant env handler I)
    (items : List Item)
    (stack : Stack α)
    (st : RenderState α)
    (hHolds : I stack.entries st) :
    I [] (FixedPage.runOpenFragment env handler stack st items).2 := by
  induction items generalizing stack st with
  | nil => exact hInv.unwind stack st hHolds
  | cons item rest ih =>
      cases item with
      | error fault => exact hInv.unwind stack st hHolds
      | ok item =>
          rcases item with ⟨place, event⟩
          have hFed := hInv.feed place event stack st hHolds
          have hEmpty :
              ∀ product,
                (stack.feed env handler place st event).result =
                    .ok (some product) →
                  (stack.feed env handler place st
                    event).stack.entries = [] :=
            fun _ => Stack.entries_of_product
          rw [FixedPage.runOpenFragment]
          generalize
            stack.feed env handler place st event = fed at *
          rcases fed with ⟨result, next, st'⟩
          rcases result with fault | product?
          · exact hInv.unwind next st' hFed
          · rcases product? with none | product
            · exact ih next st' hFed
            · rw [hEmpty product rfl] at hFed
              exact hFed

/-
  The run of a part keeps the property. Its root frame must be
  one that always finishes.
-/
theorem runPart
    (hInv : Invariant env handler I)
    (hRoot :
      ∀ root st, I [root] st →
        ∃ product st', (root.frame.finish env).perform st =
          (.ok product, st'))
    (items : List Item)
    (stack : Stack α)
    (st : RenderState α)
    (hHolds : I stack.entries st) :
    I [] (FixedPage.runPart env handler stack st items).2 := by
  induction items generalizing stack st with
  | nil =>
      unfold FixedPage.runPart endPart
      split
      · rename_i root
        rcases hRoot root st hHolds with ⟨product, st', hFinish⟩
        have hDone := hInv.root root st st' product hHolds hFinish
        rw [hFinish]
        exact hDone
      · exact hInv.unwind stack st hHolds
  | cons item rest ih =>
      cases item with
      | error fault => exact hInv.unwind stack st hHolds
      | ok item =>
          rcases item with ⟨place, event⟩
          have hFed := hInv.feed place event stack st hHolds
          rw [FixedPage.runPart]
          generalize
            stack.feed env handler place st event = fed at *
          rcases fed with ⟨result, next, st'⟩
          cases result with
          | error fault => exact hInv.unwind next st' hFed
          | ok product? => exact ih next st' hFed

/-
  Two handlers that start elements alike wherever the property
  of the second one holds run a fragment alike.
-/
theorem runOpenFragment_congr
    {handler' : StartHandler α}
    (hInv : Invariant env handler I)
    (hStart :
      ∀ (top : Entry α) (below : List (Entry α)) (e : Element)
        (st : RenderState α),
        I (top :: below) st →
          (handler' top.frame e).perform st =
            (handler top.frame e).perform st)
    (items : List Item)
    (stack : Stack α)
    (st : RenderState α)
    (hHolds : I stack.entries st) :
    FixedPage.runOpenFragment env handler' stack st items =
      FixedPage.runOpenFragment env handler stack st items := by
  have hFed :
      ∀ (place : Location) (event : Event) (stack : Stack α)
        (st : RenderState α),
        I stack.entries st →
          stack.feed env handler' place st event =
            stack.feed env handler place st event := by
    rintro place event ⟨entries, depth⟩ st hHolds
    cases event with
    | text content => rfl
    | endTag name => rfl
    | startTag name attributes =>
        cases entries with
        | nil => rfl
        | cons top below =>
            have hSame :=
              hStart top below ⟨place, name, attributes⟩ st hHolds
            simp only [Stack.feed, Stack.startElement, hSame]
  induction items generalizing stack st with
  | nil => rfl
  | cons item rest ih =>
      cases item with
      | error fault => rfl
      | ok item =>
          rcases item with ⟨place, event⟩
          have hNext := hInv.feed place event stack st hHolds
          rw [FixedPage.runOpenFragment, FixedPage.runOpenFragment,
            hFed place event stack st hHolds]
          generalize
            stack.feed env handler place st event = fed at hNext
          rcases fed with ⟨fault | product?, next, st'⟩
          · rfl
          · cases product? with
            | none => exact ih next st' hNext
            | some product => rfl

end Stack.Invariant

end FixedPage
