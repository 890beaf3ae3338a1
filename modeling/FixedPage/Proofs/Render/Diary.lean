import FixedPage.Proofs.Render.Effect
import FixedPage.Render.Stack

/-
  This file runs frames as before and keeps a diary: what is
  done with each frame and at which event. A frame goes by the
  number of the start tag of its owner, which it carries with
  it; nothing looks at the numbers. Without the diary, the runs
  are those of the frames.

  Main declarations:
    * `Deed`
    * `Diary`
    * `Diary.feed_forget`
    * `Diary.runOpenFragment_forget`
    * `Diary.runPart_forget`
-/

namespace FixedPage

open Markup

------------------------------------------------------------
-- Notes
------------------------------------------------------------

/-
  The number of the start tag of the element that owns a frame,
  or none for the root frame of a part.
-/
abbrev FrameLabel : Type :=
  Option Nat

/-
  What is done with a frame: it has begun on top of the frame
  with a label, it is finished or fails to be, the frame with a
  label receives its product, or it is given up.
-/
inductive Deed (α : Type) where
  | begun
      (parent : FrameLabel)
  | finished
      (product : Product α)
  | failed
      (fault : Error)
  | handed
      (parent : FrameLabel)
      (product : Product α)
  | aborted
deriving DecidableEq, Repr

/- Something done with a frame while an event is taken. -/
structure Note (α : Type) where
  time : Nat
  label : FrameLabel
  deed : Deed α

/- An entry of a stack with the label of its frame. -/
structure Labelled (α : Type) where
  label : FrameLabel
  entry : Entry α

/- The entry after its frame has changed. -/
def Labelled.retop
    {α : Type}
    (frame : Frame α)
    (owned : Labelled α) : Labelled α :=
  ⟨owned.label, ⟨frame, owned.entry.owner⟩⟩

/-
  A stack of labelled frames, how many events have been taken,
  and the notes so far, the last first.
-/
structure Diary (α : Type) where
  entries : List (Labelled α)
  depth : Nat
  time : Nat
  notes : List (Note α)

/- What became of a diary when an event was taken. -/
structure Diary.Fed (α : Type) where
  result : Except Error (Option (Product α))
  diary : Diary α
  state : RenderState α

namespace Diary

variable {α : Type}

/- The diary of a part before its first event. -/
def ofPart
    (root : Frame α) : Diary α :=
  ⟨[⟨none, ⟨root, 0⟩⟩], 0, 0, []⟩

/- The diary of a fragment whose first element has started. -/
def ofOpenElement
    (root : Frame α) : Diary α :=
  ⟨[⟨some 0, ⟨root, 1⟩⟩], 1, 1, []⟩

/- The stack without labels. -/
def stack
    (d : Diary α) : Stack α :=
  ⟨d.entries.map Labelled.entry, d.depth⟩

/- The labels of the frames on the stack. -/
def labels
    (d : Diary α) : List FrameLabel :=
  d.entries.map Labelled.label

/- Writes something down. -/
def note
    (label : FrameLabel)
    (deed : Deed α)
    (d : Diary α) : Diary α :=
  { d with notes := ⟨d.time, label, deed⟩ :: d.notes }

/- What has been done with a frame, and when, in order. -/
def deeds
    (d : Diary α)
    (label : FrameLabel) : List (Nat × Deed α) :=
  (d.notes.reverse.filter (·.label == label)).map
    fun note => (note.time, note.deed)

/- One more event has been taken. -/
def tick
    (d : Diary α) : Diary α :=
  { d with time := d.time + 1 }

------------------------------------------------------------
-- Events
------------------------------------------------------------

/- Starts an element. -/
def startElement
    (handler : StartHandler α)
    (e : Element)
    (d : Diary α)
    (st : RenderState α) : Fed α :=
  let d' : Diary α := { d with depth := d.depth + 1 }
  match d.entries with
  | [] => ⟨.error e.unknown, d', st⟩
  | top :: below =>
      match (handler top.entry.frame e).perform st with
      | (.error fault, st) => ⟨.error fault, d', st⟩
      | (.ok (frame, none), st) =>
          ⟨.ok none, { d' with entries := top.retop frame :: below }, st⟩
      | (.ok (frame, some child), st) =>
          let owned := ⟨some d.time, ⟨child, d.depth + 1⟩⟩
          ⟨.ok none,
            note (some d.time) (.begun top.label)
              { d' with entries := owned :: top.retop frame :: below },
            st⟩

variable [Scalar α]

/- Ends an element. -/
def endElement
    (env : Environment α)
    (place : Location)
    (name : String)
    (d : Diary α)
    (st : RenderState α) : Fed α :=
  let d' : Diary α := { d with depth := d.depth - 1 }
  match d.entries with
  | [] => ⟨.error (.unknownElement place name), d', st⟩
  | top :: below =>
      if top.entry.owner != d.depth then
        let (frame, st) := top.entry.frame.endChild env name .none st
        ⟨.ok none, { d' with entries := top.retop frame :: below }, st⟩
      else
        match (top.entry.frame.finish env).perform st, below with
        | (.error fault, st), below =>
            ⟨.error fault,
              note top.label .aborted
                (note top.label (.failed fault)
                  { d' with entries := below }),
              top.entry.frame.abort st⟩
        | (.ok product, st), [] =>
            ⟨.ok (some product),
              note top.label (.finished product) { d' with entries := [] },
              st⟩
        | (.ok product, st), parent :: below =>
            let (frame, st) :=
              parent.entry.frame.endChild env name product st
            ⟨.ok none,
              note top.label (.handed parent.label product)
                (note top.label (.finished product)
                  { d' with entries := parent.retop frame :: below }),
              st⟩

/- Takes one event. -/
def feed
    (env : Environment α)
    (handler : StartHandler α)
    (place : Location)
    (d : Diary α)
    (st : RenderState α) :
    Event → Fed α
| .startTag name attributes =>
    d.startElement handler ⟨place, name, attributes⟩ st
| .endTag name => d.endElement env place name st
| .text _ => ⟨.ok none, d, st⟩

omit [Scalar α] in
/- Gives up some frames, the top one first. -/
def abortAll :
    List (Labelled α) → Diary α → RenderState α →
      Diary α × RenderState α
| [], d, st => (d, st)
| top :: below, d, st =>
    abortAll below (d.note top.label .aborted) (top.entry.frame.abort st)

omit [Scalar α] in
/- Gives up every frame on the stack. -/
def unwind
    (d : Diary α)
    (st : RenderState α) : Diary α × RenderState α :=
  abortAll d.entries d st

------------------------------------------------------------
-- Runs
------------------------------------------------------------

/- Takes the events of a fragment whose first element has started. -/
def runOpenFragment
    (env : Environment α)
    (handler : StartHandler α)
    (d : Diary α)
    (st : RenderState α) :
    List Item → Except Error (Product α) × Diary α × RenderState α
| [] => (.error env.truncated, d.unwind st)
| .error fault :: _ => (.error fault, d.unwind st)
| .ok (place, event) :: rest =>
    match d.feed env handler place st event with
    | ⟨.error fault, d, st⟩ => (.error fault, d.unwind st)
    | ⟨.ok (some product), d, st⟩ => (.ok product, d, st)
    | ⟨.ok none, d, st⟩ => runOpenFragment env handler d.tick st rest

/- Takes the events of a fragment. -/
def runFragment
    (env : Environment α)
    (handler : StartHandler α)
    (root : Frame α)
    (expected? : Option String)
    (items : List Item)
    (st : RenderState α) :
    Except Error (Product α) × Diary α × RenderState α :=
  match fragmentRoot env expected? items with
  | .error fault => (.error fault, ⟨[], 0, 0, []⟩, st)
  | .ok rest => (ofOpenElement root).runOpenFragment env handler st rest

/- Finishes the root frame of a part whose events have ended. -/
def endPart
    (env : Environment α)
    (d : Diary α)
    (st : RenderState α) : Except Error Unit × Diary α × RenderState α :=
  match d.entries, d.depth with
  | [root], 0 =>
      match (root.entry.frame.finish env).perform st with
      | (.ok product, st) =>
          (.ok (), d.note root.label (.finished product), st)
      | (.error fault, st) =>
          (.error fault, d.note root.label (.failed fault), st)
  | _, _ => (.error env.truncated, d.unwind st)

/- Takes the events of a part. -/
def runPart
    (env : Environment α)
    (handler : StartHandler α)
    (d : Diary α)
    (st : RenderState α) :
    List Item → Except Error Unit × Diary α × RenderState α
| [] => d.endPart env st
| .error fault :: _ => (.error fault, d.unwind st)
| .ok (place, event) :: rest =>
    match d.feed env handler place st event with
    | ⟨.error fault, d, st⟩ => (.error fault, d.unwind st)
    | ⟨.ok _, d, st⟩ => runPart env handler d.tick st rest

------------------------------------------------------------
-- Without the diary
------------------------------------------------------------

omit [Scalar α] in
@[simp] theorem stack_note
    (label : FrameLabel)
    (deed : Deed α)
    (d : Diary α) :
    (d.note label deed).stack = d.stack :=
  rfl

omit [Scalar α] in
@[simp] theorem stack_tick
    (d : Diary α) :
    d.tick.stack = d.stack :=
  rfl

omit [Scalar α] in
@[simp] theorem stack_entries
    (d : Diary α) :
    d.stack.entries = d.entries.map Labelled.entry :=
  rfl

omit [Scalar α] in
@[simp] theorem stack_depth
    (d : Diary α) :
    d.stack.depth = d.depth :=
  rfl

/- What became of the stack. -/
def Fed.forget
    (fed : Fed α) : FixedPage.Fed α :=
  ⟨fed.result, fed.diary.stack, fed.state⟩

/- An event does to the frames what it does without a diary. -/
theorem feed_forget
    (env : Environment α)
    (handler : StartHandler α)
    (place : Location)
    (d : Diary α)
    (st : RenderState α)
    (event : Event) :
    (d.feed env handler place st event).forget =
      d.stack.feed env handler place st event := by
  rcases d with ⟨entries, depth, time, notes⟩
  cases event with
  | text content => rfl
  | startTag name attributes =>
      cases entries with
      | nil => rfl
      | cons top below =>
          simp only [feed, startElement, Stack.feed, Stack.startElement,
            stack, List.map_cons]
          generalize
            (handler top.entry.frame ⟨place, name, attributes⟩).perform st =
              outcome
          rcases outcome with ⟨fault | ⟨frame, _ | child⟩, st'⟩ <;> rfl
  | endTag name =>
      cases entries with
      | nil => rfl
      | cons top below =>
          simp only [feed, endElement, Stack.feed, Stack.endElement,
            stack, List.map_cons]
          split
          · rfl
          · generalize (top.entry.frame.finish env).perform st = outcome
            rcases outcome with ⟨fault | product, st'⟩
            · rfl
            · cases below <;> rfl

/- The event under way is the same while it is taken. -/
theorem feed_time
    (env : Environment α)
    (handler : StartHandler α)
    (place : Location)
    (d : Diary α)
    (st : RenderState α)
    (event : Event) :
    (d.feed env handler place st event).diary.time = d.time := by
  rcases d with ⟨entries, depth, time, notes⟩
  cases event with
  | text content => rfl
  | startTag name attributes =>
      cases entries with
      | nil => rfl
      | cons top below =>
          simp only [feed, startElement]
          rcases
            (handler top.entry.frame ⟨place, name, attributes⟩).perform st
            with ⟨fault | ⟨frame, _ | child⟩, st'⟩ <;> rfl
  | endTag name =>
      cases entries with
      | nil => rfl
      | cons top below =>
          simp only [feed, endElement]
          split
          · rfl
          · rcases (top.entry.frame.finish env).perform st with
              ⟨fault | product, st'⟩
            · rfl
            · cases below <;> rfl

omit [Scalar α] in
/- Giving up frames does the same without a diary. -/
theorem unwind_forget
    (d : Diary α)
    (st : RenderState α) :
    (d.unwind st).2 = d.stack.unwind st := by
  have hAll :
      ∀ (entries : List (Labelled α)) (d : Diary α) (st : RenderState α),
        (abortAll entries d st).2 =
          (entries.map Labelled.entry).foldl
            (fun st entry => entry.frame.abort st) st := by
    intro entries
    induction entries with
    | nil => exact fun _ _ => rfl
    | cons top below ih => exact fun d st => ih _ _
  exact hAll d.entries d st

/- A fragment does the same without a diary. -/
theorem runOpenFragment_forget
    (env : Environment α)
    (handler : StartHandler α)
    (d : Diary α)
    (st : RenderState α)
    (items : List Item) :
    ((d.runOpenFragment env handler st items).1,
        (d.runOpenFragment env handler st items).2.2) =
      FixedPage.runOpenFragment env handler d.stack st items := by
  induction items generalizing d st with
  | nil => rw [runOpenFragment, FixedPage.runOpenFragment, unwind_forget]
  | cons item rest ih =>
      cases item with
      | error fault =>
          rw [runOpenFragment, FixedPage.runOpenFragment, unwind_forget]
      | ok item =>
          rcases item with ⟨place, event⟩
          rw [runOpenFragment, FixedPage.runOpenFragment, ← feed_forget]
          rcases d.feed env handler place st event with
            ⟨fault | (_ | product), next, st'⟩
          · exact congrArg (Prod.mk _) (unwind_forget next st')
          · exact ih next.tick st'
          · rfl

/- A fragment does the same without a diary, if it starts well. -/
theorem runFragment_forget
    (env : Environment α)
    (handler : StartHandler α)
    (root : Frame α)
    (expected? : Option String)
    (items : List Item)
    (st : RenderState α) :
    ((runFragment env handler root expected? items st).1,
        (runFragment env handler root expected? items st).2.2) =
      (FixedPage.runFragment env handler root expected? items).perform
        st := by
  rw [FixedPage.runFragment, Action.perform_bind,
    Action.perform_ofExcept, runFragment]
  cases fragmentRoot env expected? items with
  | error fault => rfl
  | ok rest =>
      exact runOpenFragment_forget env handler (.ofOpenElement root) st rest

/- The end of a part does the same without a diary. -/
theorem endPart_forget
    (env : Environment α)
    (d : Diary α)
    (st : RenderState α) :
    ((d.endPart env st).1, (d.endPart env st).2.2) =
      FixedPage.endPart env d.stack st := by
  rcases d with ⟨_ | ⟨root, _ | ⟨next, below⟩⟩, _ | depth, time, notes⟩
  case cons.nil.zero =>
    simp only [endPart, stack, List.map_cons, List.map_nil,
      FixedPage.endPart]
    rcases (root.entry.frame.finish env).perform st with
      ⟨fault | product, st'⟩ <;> rfl
  all_goals exact congrArg (Prod.mk _) (unwind_forget _ st)

/- A part does the same without a diary. -/
theorem runPart_forget
    (env : Environment α)
    (handler : StartHandler α)
    (d : Diary α)
    (st : RenderState α)
    (items : List Item) :
    ((d.runPart env handler st items).1,
        (d.runPart env handler st items).2.2) =
      FixedPage.runPart env handler d.stack st items := by
  induction items generalizing d st with
  | nil => exact endPart_forget env d st
  | cons item rest ih =>
      cases item with
      | error fault => rw [runPart, FixedPage.runPart, unwind_forget]
      | ok item =>
          rcases item with ⟨place, event⟩
          rw [runPart, FixedPage.runPart, ← feed_forget]
          rcases d.feed env handler place st event with
            ⟨fault | product?, next, st'⟩
          · exact congrArg (Prod.mk _) (unwind_forget next st')
          · exact ih next.tick st'

------------------------------------------------------------
-- Deeds
------------------------------------------------------------

omit [Scalar α] in
@[simp] theorem deeds_tick
    (d : Diary α)
    (label : FrameLabel) :
    d.tick.deeds label = d.deeds label :=
  rfl

omit [Scalar α] in
/- A note is about one frame. -/
theorem deeds_note
    (label other : FrameLabel)
    (deed : Deed α)
    (d : Diary α) :
    (d.note label deed).deeds other =
      d.deeds other ++ if label = other then [(d.time, deed)] else [] := by
  simp only [deeds, note, List.reverse_cons, List.filter_append,
    List.map_append]
  by_cases hLabel : label = other <;> simp [hLabel]

omit [Scalar α] in
/- Two notes about one frame, and none about the others. -/
theorem deeds_note_note
    (label other : FrameLabel)
    (first second : Deed α)
    (d : Diary α) :
    ((d.note label first).note label second).deeds other =
      d.deeds other ++
        if label = other then [(d.time, first), (d.time, second)]
        else [] := by
  rw [deeds_note, deeds_note, List.append_assoc]
  split <;> rfl

omit [Scalar α] in
/- Each of the frames that are given up is given up once. -/
theorem deeds_abortAll
    (other : FrameLabel)
    (entries : List (Labelled α))
    (hDistinct : (entries.map Labelled.label).Nodup)
    (d : Diary α)
    (st : RenderState α) :
    (abortAll entries d st).1.deeds other =
      d.deeds other ++
        if other ∈ entries.map Labelled.label then [(d.time, .aborted)]
        else [] := by
  induction entries generalizing d st with
  | nil => simp [abortAll]
  | cons top below ih =>
      rw [List.map_cons, List.nodup_cons] at hDistinct
      rw [abortAll, ih hDistinct.2, deeds_note, List.append_assoc]
      congr 1
      by_cases hLabel : top.label = other
      · subst hLabel
        simp [hDistinct.1]
      · simp [note, hLabel, Ne.symm hLabel]

omit [Scalar α] in
/- Each frame on the stack is given up once, the others are not. -/
theorem deeds_unwind
    (d : Diary α)
    (hDistinct : d.labels.Nodup)
    (st : RenderState α)
    (label : FrameLabel) :
    (d.unwind st).1.deeds label =
      d.deeds label ++
        if label ∈ d.labels then [(d.time, .aborted)] else [] :=
  deeds_abortAll label d.entries hDistinct d st

end Diary

end FixedPage
