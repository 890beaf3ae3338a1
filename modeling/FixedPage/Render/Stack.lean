import FixedPage.Markup.Element
import FixedPage.Markup.Reader
import FixedPage.Render.Closing

/-
  This file defines how the frames of a page take the events of
  its markup. What an element does when it starts is left open:
  it is given by a start handler.

  A fragment is markup whose first element owns the root frame;
  it gives the product of that frame. The root frame of a part
  has no element of its own and sees every element.

  Main declarations:
    * `StartHandler`
    * `Stack.feed`
    * `Stack.unwind`
    * `runFragment`
    * `runPart`
-/

namespace FixedPage

open Markup

/-
  What a frame does when an element starts inside its owner: the
  frame afterwards, and the frame that the element owns, if any.
-/
abbrev StartHandler (α : Type) : Type :=
  Frame α → Element → Action α (Frame α × Option (Frame α))

/-
  What became of a stack that took an event. There is a product
  when the owner of the bottom frame has ended.
-/
structure Fed (α : Type) where
  result : Except Error (Option (Product α))
  stack : Stack α
  state : RenderState α

variable {α : Type} [Scalar α]

------------------------------------------------------------
-- Events
------------------------------------------------------------

namespace Stack

omit [Scalar α] in
/- Starts an element, which the top frame sees. -/
def startElement
    (handler : StartHandler α)
    (e : Element)
    (stack : Stack α)
    (st : RenderState α) : Fed α :=
  let depth := stack.depth + 1
  match stack.entries with
  | [] => ⟨.error e.unknown, ⟨[], depth⟩, st⟩
  | top :: below =>
      match (handler top.frame e).perform st with
      | (.error fault, st) =>
          ⟨.error fault, ⟨top :: below, depth⟩, st⟩
      | (.ok (frame, child?), st) =>
          let child := child?.map fun child => ⟨child, depth⟩
          ⟨.ok none,
            ⟨child.toList ++ ⟨frame, top.owner⟩ :: below, depth⟩, st⟩

/-
  Ends an element. If it owns the top frame, the frame is
  finished and the frame below receives the product.
-/
def endElement
    (env : Environment α)
    (place : Location)
    (name : String)
    (stack : Stack α)
    (st : RenderState α) : Fed α :=
  let depth := stack.depth - 1
  match stack.entries with
  | [] => ⟨.error (.unknownElement place name), ⟨[], depth⟩, st⟩
  | top :: below =>
      if top.owner != stack.depth then
        let (frame, st) := top.frame.endChild env name .none st
        ⟨.ok none, ⟨⟨frame, top.owner⟩ :: below, depth⟩, st⟩
      else
        match (top.frame.finish env).perform st, below with
        | (.error fault, st), below =>
            ⟨.error fault, ⟨below, depth⟩, top.frame.abort st⟩
        | (.ok product, st), [] =>
            ⟨.ok (some product), ⟨[], depth⟩, st⟩
        | (.ok product, st), parent :: below =>
            let (frame, st) := parent.frame.endChild env name product st
            ⟨.ok none, ⟨⟨frame, parent.owner⟩ :: below, depth⟩, st⟩

/- Takes one event; text is passed over. -/
def feed
    (env : Environment α)
    (handler : StartHandler α)
    (place : Location)
    (stack : Stack α)
    (st : RenderState α) :
    Event → Fed α
| .startTag name attributes =>
    stack.startElement handler ⟨place, name, attributes⟩ st
| .endTag name => stack.endElement env place name st
| .text _ => ⟨.ok none, stack, st⟩

omit [Scalar α] in
/- Gives up every frame, the top one first. -/
def unwind
    (stack : Stack α)
    (st : RenderState α) : RenderState α :=
  stack.entries.foldl (fun st entry => entry.frame.abort st) st

end Stack

------------------------------------------------------------
-- Fragments
------------------------------------------------------------

omit [Scalar α] in
/- The events of a part end too early. -/
def Environment.truncated
    (env : Environment α) : Error :=
  .markup ⟨env.source, 0, 0⟩ .truncated

/- Takes the events of a fragment whose first element has started. -/
def runOpenFragment
    (env : Environment α)
    (handler : StartHandler α)
    (stack : Stack α)
    (st : RenderState α) :
    List Item → Except Error (Product α) × RenderState α
| [] => (.error env.truncated, stack.unwind st)
| .error fault :: _ => (.error fault, stack.unwind st)
| .ok (place, event) :: rest =>
    match stack.feed env handler place st event with
    | ⟨.error fault, stack, st⟩ => (.error fault, stack.unwind st)
    | ⟨.ok (some product), _, st⟩ => (.ok product, st)
    | ⟨.ok none, stack, st⟩ =>
        runOpenFragment env handler stack st rest

/- Checks that a fragment starts with an element, maybe of a name. -/
def fragmentRoot
    (env : Environment α)
    (expected? : Option String) :
    List Item → Except Error (List Item)
| [] => .error env.truncated
| .error fault :: _ => .error fault
| .ok (place, .startTag name _) :: rest =>
    match expected? with
    | some expected =>
        if name == expected then .ok rest
        else .error (.unknownElement place name)
    | none => .ok rest
| .ok (place, _) :: _ => .error (.markup place .startTagExpected)

/-
  The product of a root frame that is owned by the first element
  of a fragment.
-/
def runFragment
    (env : Environment α)
    (handler : StartHandler α)
    (root : Frame α)
    (expected? : Option String)
    (items : List Item) : Action α (Product α) := do
  let rest ← Action.ofExcept (fragmentRoot env expected? items)
  Action.ofEffect fun st =>
    runOpenFragment env handler (.ofOpenElement root) st rest

------------------------------------------------------------
-- Parts
------------------------------------------------------------

/- Finishes the root frame of a part whose events have ended. -/
def endPart
    (env : Environment α)
    (stack : Stack α)
    (st : RenderState α) : Except Error Unit × RenderState α :=
  match stack with
  | ⟨[root], 0⟩ =>
      ((root.frame.finish env).perform st).map
        (Except.map fun _ => ()) id
  | _ => (.error env.truncated, stack.unwind st)

/- Takes the events of a part. -/
def runPart
    (env : Environment α)
    (handler : StartHandler α)
    (stack : Stack α)
    (st : RenderState α) :
    List Item → Except Error Unit × RenderState α
| [] => endPart env stack st
| .error fault :: _ => (.error fault, stack.unwind st)
| .ok (place, event) :: rest =>
    match stack.feed env handler place st event with
    | ⟨.error fault, stack, st⟩ => (.error fault, stack.unwind st)
    | ⟨.ok _, stack, st⟩ => runPart env handler stack st rest

end FixedPage
