import FixedPage.Proofs.Markup.Elements
import FixedPage.Proofs.Mirror.Relation
import FixedPage.Proofs.Render.Diary
import FixedPage.Proofs.Render.Owner
import FixedPage.Proofs.Scalar.Exact

/-
  This file tells what becomes of the frames of elements. While
  events are taken, the frame of an element waits for the end
  tag that matches the start tag of the element. It is finished
  there and the frame that it began on receives its product, or
  else it is given up once and the run fails.

  Main declarations:
    * `Life`
    * `RootLife`
    * `Diary.Kept`
    * `Diary.Kept.feed`
    * `frames_finishedOnce`
-/

namespace FixedPage

open Markup

variable {α : Type}

------------------------------------------------------------
-- Lives
------------------------------------------------------------

/-
  What is done with the frame of the element started by event
  number `i` when the run fails before it is finished, or as it
  cannot be finished.
-/
inductive Lost
    (events : List Event)
    (fault : Error)
    (i : Nat) : List (Nat × Deed α) → Prop
  | failed
      {j : Nat}
      (hEnds : EndsAt events i j) :
      Lost events fault i [(j, .failed fault), (j, .aborted)]
  | aborted
      {k : Nat}
      (hOpen : IsOpen events i k)
      (hEnd : ¬ EndsAt events i k) :
      Lost events fault i [(k, .aborted)]

/-
  What is done with the frame of the element started by event
  number `i`, if it owns one, in a run that fails or does not.
-/
inductive Life
    (events : List Event)
    (fault? : Option Error)
    (i : Nat) : List (Nat × Deed α) → Prop
  | frameless : Life events fault? i []
  | finished
      {parent : FrameLabel}
      {product : Product α}
      {j : Nat}
      (hEnds : EndsAt events i j) :
      Life events fault? i
        [(i, .begun parent), (j, .finished product),
          (j, .handed parent product)]
  | lost
      {parent : FrameLabel}
      {fault : Error}
      {ends : List (Nat × Deed α)}
      (hFault : fault? = some fault)
      (hLost : Lost events fault i ends) :
      Life events fault? i ((i, .begun parent) :: ends)

/-
  What is done with the root frame of a fragment, which its
  first element owns.
-/
inductive RootLife
    (events : List Event) :
    Except Error (Product α) → List (Nat × Deed α) → Prop
  | finished
      {product : Product α}
      {j : Nat}
      (hEnds : EndsAt events 0 j) :
      RootLife events (.ok product) [(j, .finished product)]
  | lost
      {fault : Error}
      {ends : List (Nat × Deed α)}
      (hLost : Lost events fault 0 ends) :
      RootLife events (.error fault) ends

/- The error of a run that fails. -/
def faultOf?
    {β : Type} : Except Error β → Option Error
| .ok _ => none
| .error fault => some fault

/- A life in a run that has not failed so far. -/
theorem Life.later
    {events : List Event}
    {i : Nat}
    {deeds : List (Nat × Deed α)}
    (hLife : Life events none i deeds)
    (fault? : Option Error) : Life events fault? i deeds := by
  cases hLife with
  | frameless => exact .frameless
  | finished hEnds => exact .finished hEnds
  | lost hFault => cases hFault

------------------------------------------------------------
-- Owners
------------------------------------------------------------

/-
  The owner of a frame is the open element with its label: the
  depth of the one is the place of the other.
-/
def Labelled.OwnedIn
    (opens : List OpenElement)
    (owned : Labelled α) : Prop :=
  match owned.label with
  | none => owned.entry.owner = 0
  | some i =>
      ∃ above name outer,
        opens = above ++ ⟨i, name⟩ :: outer ∧
          owned.entry.owner = outer.length + 1

namespace Labelled.OwnedIn

variable {opens : List OpenElement} {owned : Labelled α}

/- A frame without an owner. -/
theorem iff_none
    (hLabel : owned.label = none) :
    owned.OwnedIn opens ↔ owned.entry.owner = 0 := by
  rw [OwnedIn, hLabel]

/- A frame with an owner. -/
theorem iff_some
    {i : Nat}
    (hLabel : owned.label = some i) :
    owned.OwnedIn opens ↔
      ∃ above name outer,
        opens = above ++ ⟨i, name⟩ :: outer ∧
          owned.entry.owner = outer.length + 1 := by
  rw [OwnedIn, hLabel]

/- The owner is still open when another element has started. -/
theorem push
    (hOwned : owned.OwnedIn opens)
    (e : OpenElement) : owned.OwnedIn (e :: opens) := by
  cases hLabel : owned.label with
  | none =>
      rw [iff_none hLabel] at hOwned ⊢
      exact hOwned
  | some i =>
      rw [iff_some hLabel] at hOwned ⊢
      rcases hOwned with ⟨above, name, outer, rfl, hOwner⟩
      exact ⟨e :: above, name, outer, rfl, hOwner⟩

/- The owner is still open when an inner element has ended. -/
theorem pop
    {e : OpenElement}
    (hOwned : owned.OwnedIn (e :: opens))
    (hOwner : owned.entry.owner ≤ opens.length) :
    owned.OwnedIn opens := by
  cases hLabel : owned.label with
  | none =>
      rw [iff_none hLabel] at hOwned ⊢
      exact hOwned
  | some i =>
      rw [iff_some hLabel] at hOwned ⊢
      rcases hOwned with ⟨_ | ⟨_, above⟩, name, outer, hOpens, hDepth⟩
      · cases hOpens
        omega
      · cases hOpens
        exact ⟨above, name, outer, rfl, hDepth⟩

/- The frame that the innermost open element owns. -/
theorem innermost
    {e : OpenElement}
    (hOwned : owned.OwnedIn (e :: opens))
    (hOwner : owned.entry.owner = opens.length + 1) :
    owned.label = some e.start := by
  cases hLabel : owned.label with
  | none =>
      rw [iff_none hLabel] at hOwned
      omega
  | some i =>
      rw [iff_some hLabel] at hOwned
      rcases hOwned with ⟨_ | ⟨_, above⟩, name, outer, hOpens, hDepth⟩
      · cases hOpens
        rfl
      · have hLength := congrArg List.length hOpens
        simp only [List.cons_append, List.length_cons,
          List.length_append] at hLength
        omega

/- The owner of a labelled frame is open. -/
theorem mem
    {i : Nat}
    (hOwned : owned.OwnedIn opens)
    (hLabel : owned.label = some i) :
    ∃ e ∈ opens, e.start = i := by
  rw [iff_some hLabel] at hOwned
  rcases hOwned with ⟨above, name, outer, rfl, -⟩
  exact ⟨⟨i, name⟩, by simp, rfl⟩

/- An open element is told by where it started. -/
theorem outer_unique
    {i : Nat}
    {name name' : String}
    {above above' outer outer' : List OpenElement}
    (hOrder : opens.Pairwise fun inner outer => outer.start < inner.start)
    (hOpens : opens = above ++ ⟨i, name⟩ :: outer)
    (hOpens' : opens = above' ++ ⟨i, name'⟩ :: outer') :
    outer = outer' := by
  induction above generalizing above' opens with
  | nil =>
      subst hOpens
      cases above' with
      | nil =>
          cases hOpens'
          rfl
      | cons e above' =>
          cases hOpens'
          have hStart :=
            (List.pairwise_cons.mp hOrder).1 ⟨i, name'⟩ (by simp)
          exact absurd hStart (Nat.lt_irrefl i)
  | cons e above ih =>
      subst hOpens
      cases above' with
      | nil =>
          cases hOpens'
          have hStart :=
            (List.pairwise_cons.mp hOrder).1 ⟨i, name⟩ (by simp)
          exact absurd hStart (Nat.lt_irrefl i)
      | cons e' above' =>
          exact ih (List.pairwise_cons.mp hOrder).2 rfl
            (List.cons.inj hOpens').2

/- Frames with one label have one owner. -/
theorem owner_unique
    {n : Nat}
    {other : Labelled α}
    (hRising : Rising n opens)
    (hOwned : owned.OwnedIn opens)
    (hOther : other.OwnedIn opens)
    (hSame : other.label = owned.label) :
    owned.entry.owner = other.entry.owner := by
  cases hLabel : owned.label with
  | none =>
      rw [iff_none hLabel] at hOwned
      rw [iff_none (hSame.trans hLabel)] at hOther
      rw [hOwned, hOther]
  | some i =>
      rw [iff_some hLabel] at hOwned
      rw [iff_some (hSame.trans hLabel)] at hOther
      rcases hOwned with ⟨above, name, outer, hOpens, hOwner⟩
      rcases hOther with ⟨above', name', outer', hOpens', hOwner'⟩
      rw [hOwner, hOwner', outer_unique hRising.2 hOpens hOpens']

end Labelled.OwnedIn

------------------------------------------------------------
-- Frames on the stack
------------------------------------------------------------

namespace Diary

/-
  The frames with these labels, the top one first, have begun
  one on top of the other and nothing else has been done with
  them.
-/
def Waiting
    (d : Diary α) : List FrameLabel → Prop
| [] => True
| [bottom] => d.deeds bottom = []
| label :: parent :: below =>
    (∃ i, label = some i ∧ d.deeds label = [(i, .begun parent)]) ∧
      d.Waiting (parent :: below)

/- What is done with other frames does not matter. -/
theorem Waiting.congr
    {d d' : Diary α}
    {labels : List FrameLabel}
    (hWaiting : d.Waiting labels)
    (hDeeds : ∀ label ∈ labels, d'.deeds label = d.deeds label) :
    d'.Waiting labels := by
  induction labels with
  | nil => trivial
  | cons label labels ih =>
      cases labels with
      | nil =>
          rw [Waiting, hDeeds label (by simp)]
          exact hWaiting
      | cons parent below =>
          rcases hWaiting with ⟨⟨i, hLabel, hBegun⟩, hBelow⟩
          refine ⟨⟨i, hLabel, ?_⟩, ih hBelow ?_⟩
          · rw [hDeeds label (by simp), hBegun]
          · intro other hMem
            exact hDeeds other (.tail _ hMem)

/-
  A frame that waits has begun on another one, unless it is the
  bottom one.
-/
theorem Waiting.deeds
    {d : Diary α}
    {labels : List FrameLabel}
    {label bottom : FrameLabel}
    (hWaiting : d.Waiting labels)
    (hDistinct : labels.Nodup)
    (hBottom : labels.getLast? = some bottom)
    (hMem : label ∈ labels) :
    label = bottom ∧ d.deeds label = [] ∨
      label ≠ bottom ∧
        ∃ i parent, label = some i ∧
          d.deeds label = [(i, .begun parent)] := by
  induction labels with
  | nil => cases hMem
  | cons top labels ih =>
      cases labels with
      | nil =>
          cases hBottom
          rcases List.mem_singleton.mp hMem with rfl
          exact .inl ⟨rfl, hWaiting⟩
      | cons parent below =>
          rw [List.nodup_cons] at hDistinct
          rw [List.getLast?_cons_cons] at hBottom
          rcases hWaiting with ⟨⟨i, hLabel, hBegun⟩, hBelow⟩
          rcases List.mem_cons.mp hMem with rfl | hMem
          · right
            refine ⟨?_, i, parent, hLabel, hBegun⟩
            rintro rfl
            exact hDistinct.1 (List.mem_of_getLast? hBottom)
          · exact ih hBelow hDistinct.2 hBottom hMem

/-
  A diary after some of the events, when `opens` are open: the
  frames on the stack belong to open elements and wait, and
  those that are gone have been finished. The bottom frame has
  the label `bottom`.
-/
structure Kept
    (events : List Event)
    (bottom : FrameLabel)
    (opens : List OpenElement)
    (d : Diary α) : Prop where
  opened : openAfter? 0 [] (events.take d.time) = some opens
  depth : d.depth = opens.length
  ordered : d.stack.Ordered
  owned : ∀ owned ∈ d.entries, owned.OwnedIn opens
  last : d.labels.getLast? = some bottom
  waiting : d.Waiting d.labels
  fresh : ∀ i, d.time ≤ i → d.deeds (some i) = []
  gone :
    ∀ i, some i ∉ d.labels → Life events none i (d.deeds (some i))

namespace Kept

variable {events : List Event} {bottom : FrameLabel}
variable {opens next : List OpenElement} {d : Diary α}

/- No two frames on the stack have the same label. -/
theorem distinct
    (hKept : d.Kept events bottom opens) : d.labels.Nodup := by
  have hOwners :
      d.entries.Pairwise fun upper lower =>
        upper.entry.owner > lower.entry.owner := by
    have hNested := hKept.ordered.nested
    rwa [stack_entries, List.map_map, List.pairwise_map] at hNested
  rw [labels, List.Nodup, List.pairwise_map]
  refine hOwners.imp_of_mem ?_
  intro upper lower hUpper hLower hOwner hLabel
  have hSame :=
    (hKept.owned upper hUpper).owner_unique
      (rising_take hKept.opened) (hKept.owned lower hLower) hLabel.symm
  omega

/- The owners of the frames on the stack are open. -/
theorem isOpen
    {i : Nat}
    (hKept : d.Kept events bottom opens)
    (hMem : some i ∈ d.labels) : IsOpen events i d.time := by
  rcases List.mem_map.mp hMem with ⟨owned, hOwned, hLabel⟩
  exact ⟨opens, hKept.opened, (hKept.owned owned hOwned).mem hLabel⟩

/- The owners of the frames on the stack have started before. -/
theorem started
    {i : Nat}
    (hKept : d.Kept events bottom opens)
    (hMem : some i ∈ d.labels) : i < d.time := by
  rcases List.mem_map.mp hMem with ⟨owned, hOwned, hLabel⟩
  rcases (hKept.owned owned hOwned).mem hLabel with ⟨e, hOpen, rfl⟩
  exact (rising_take hKept.opened).1 e hOpen

end Kept

------------------------------------------------------------
-- Failures
------------------------------------------------------------

/-
  A diary when an error has come: the frames on the stack wait
  and their owners do not end now; what has become of the other
  frames is settled.
-/
structure Spoilt
    (events : List Event)
    (fault : Error)
    (bottom : FrameLabel)
    (d : Diary α) : Prop where
  distinct : d.labels.Nodup
  waiting : d.Waiting d.labels
  last : d.labels ≠ [] → d.labels.getLast? = some bottom
  opened :
    ∀ i, some i ∈ d.labels →
      IsOpen events i d.time ∧ ¬ EndsAt events i d.time
  gone :
    ∀ i, some i ∉ d.labels → some i ≠ bottom →
      Life events (some fault) i (d.deeds (some i))
  root :
    ∀ i, some i ∉ d.labels → some i = bottom →
      Lost events fault i (d.deeds (some i))

/- Giving up every frame settles what becomes of it. -/
theorem Spoilt.unwind
    {events : List Event}
    {fault : Error}
    {bottom : FrameLabel}
    {d : Diary α}
    (hSpoilt : d.Spoilt events fault bottom)
    (st : RenderState α)
    (i : Nat) :
    (some i ≠ bottom →
        Life events (some fault) i ((d.unwind st).1.deeds (some i))) ∧
      (some i = bottom →
        Lost events fault i ((d.unwind st).1.deeds (some i))) := by
  rw [deeds_unwind d hSpoilt.distinct]
  by_cases hMem : some i ∈ d.labels
  · have hLost : Lost events fault i [(d.time, (.aborted : Deed α))] :=
      .aborted (hSpoilt.opened i hMem).1 (hSpoilt.opened i hMem).2
    have hLast := hSpoilt.last (List.ne_nil_of_mem hMem)
    rw [if_pos hMem]
    rcases hSpoilt.waiting.deeds hSpoilt.distinct hLast hMem with
      ⟨hBottom, hDeeds⟩ | ⟨hOther, j, parent, hLabel, hDeeds⟩
    · rw [hDeeds]
      exact ⟨fun hOther => absurd hBottom hOther, fun _ => hLost⟩
    · cases hLabel
      rw [hDeeds]
      exact ⟨fun _ => .lost rfl hLost,
        fun hBottom => absurd hBottom hOther⟩
  · rw [if_neg hMem, List.append_nil]
    exact ⟨hSpoilt.gone i hMem, hSpoilt.root i hMem⟩

------------------------------------------------------------
-- Events
------------------------------------------------------------

namespace Kept

variable {events : List Event} {bottom : FrameLabel}
variable {opens : List OpenElement} {d : Diary α}
variable {top : Labelled α} {below : List (Labelled α)}
variable {depth time : Nat} {notes : List (Note α)}

/- The frames may change, but not their labels and owners. -/
theorem retop
    (hKept : Kept events bottom opens ⟨top :: below, depth, time, notes⟩)
    (frame : Frame α) :
    Kept events bottom opens
      ⟨top.retop frame :: below, depth, time, notes⟩ where
  opened := hKept.opened
  depth := hKept.depth
  ordered := hKept.ordered.retop frame
  owned := by
    intro owned hMem
    rcases List.mem_cons.mp hMem with rfl | hMem
    · exact hKept.owned top (.head _)
    · exact hKept.owned owned (.tail _ hMem)
  last := hKept.last
  waiting := hKept.waiting.congr fun _ _ => rfl
  fresh := hKept.fresh
  gone := hKept.gone

/- Text opens nothing. -/
theorem text
    (hKept : d.Kept events bottom opens)
    (hNext :
      openAfter? 0 [] (events.take (d.time + 1)) = some opens) :
    d.tick.Kept events bottom opens where
  opened := hNext
  depth := hKept.depth
  ordered := hKept.ordered
  owned := hKept.owned
  last := hKept.last
  waiting := hKept.waiting.congr fun _ _ => rfl
  fresh i hLater := hKept.fresh i (Nat.le_of_succ_le hLater)
  gone := hKept.gone

/- An element that owns no frame starts. -/
theorem startFrameless
    {name : String}
    (hKept : d.Kept events bottom opens)
    (hNext :
      openAfter? 0 [] (events.take (d.time + 1)) =
        some (⟨d.time, name⟩ :: opens)) :
    (tick { d with depth := d.depth + 1 }).Kept events bottom
      (⟨d.time, name⟩ :: opens) where
  opened := hNext
  depth := congrArg (· + 1) hKept.depth
  ordered := hKept.ordered.deeper
  owned owned hMem := (hKept.owned owned hMem).push _
  last := hKept.last
  waiting := hKept.waiting.congr fun _ _ => rfl
  fresh i hLater := hKept.fresh i (Nat.le_of_succ_le hLater)
  gone := hKept.gone

/- An element that owns a frame starts. -/
theorem startFramed
    {name : String}
    (hKept : Kept events bottom opens ⟨top :: below, depth, time, notes⟩)
    (hNext :
      openAfter? 0 [] (events.take (time + 1)) =
        some (⟨time, name⟩ :: opens))
    (child : Frame α) :
    (tick (note (some time) (.begun top.label)
      ⟨⟨some time, ⟨child, depth + 1⟩⟩ :: top :: below, depth + 1, time,
        notes⟩)).Kept events bottom (⟨time, name⟩ :: opens) := by
  have hOther :
      ∀ label, label ≠ some time →
        (tick (note (some time) (.begun top.label)
          ⟨⟨some time, ⟨child, depth + 1⟩⟩ :: top :: below, depth + 1,
            time, notes⟩)).deeds label =
          (⟨top :: below, depth, time, notes⟩ : Diary α).deeds label := by
    intro label hLabel
    exact
      (deeds_note (some time) label (.begun top.label) _).trans
        (by rw [if_neg (Ne.symm hLabel), List.append_nil]; rfl)
  have hBefore :
      ∀ label ∈ (⟨top :: below, depth, time, notes⟩ : Diary α).labels,
        label ≠ some time := by
    rintro label hMem rfl
    exact Nat.lt_irrefl time (hKept.started hMem)
  refine
    ⟨hNext, congrArg (· + 1) hKept.depth, hKept.ordered.push child, ?_,
      ?_, ?_, ?_, ?_⟩
  · intro owned hMem
    rcases List.mem_cons.mp hMem with rfl | hMem
    · refine ⟨[], name, opens, rfl, ?_⟩
      exact congrArg (· + 1) hKept.depth
    · exact (hKept.owned owned hMem).push _
  · have hLast := hKept.last
    exact (List.getLast?_cons_cons ..).trans hLast
  · refine ⟨⟨time, rfl, ?_⟩, ?_⟩
    · have hFresh := hKept.fresh time (Nat.le_refl time)
      refine (deeds_note (some time) (some time) (.begun top.label) _).trans ?_
      rw [if_pos rfl]
      exact congrArg (· ++ [(time, .begun top.label)]) hFresh
    · exact hKept.waiting.congr fun label hMem =>
        hOther label (hBefore label hMem)
  · intro i hLater
    have hTime : some i ≠ some time := by
      rintro ⟨⟩
      exact Nat.lt_irrefl time hLater
    rw [hOther (some i) hTime]
    exact hKept.fresh i (Nat.le_of_succ_le hLater)
  · intro i hGone
    have hMem := List.not_mem_of_not_mem_cons hGone
    have hTime : some i ≠ some time := List.ne_of_not_mem_cons hGone
    rw [hOther (some i) hTime]
    exact hKept.gone i hMem

/- An element ends that owns no frame. -/
theorem endFrameless
    {e : OpenElement}
    (hKept :
      Kept events bottom (e :: opens) ⟨top :: below, depth, time, notes⟩)
    (hOther : top.entry.owner ≠ depth)
    (hNext : openAfter? 0 [] (events.take (time + 1)) = some opens) :
    (tick ⟨top :: below, depth - 1, time, notes⟩).Kept events bottom
      opens := by
  have hDepth : depth - 1 = opens.length := by
    have hOpens : depth = (e :: opens).length := hKept.depth
    rw [hOpens, List.length_cons, Nat.add_sub_cancel]
  have hOrdered := hKept.ordered.shallower hOther
  refine ⟨hNext, hDepth, hOrdered, ?_, hKept.last,
    hKept.waiting.congr fun _ _ => rfl, ?_, hKept.gone⟩
  · intro owned hMem
    have hBound := hOrdered.bound owned.entry (List.mem_map_of_mem hMem)
    exact (hKept.owned owned hMem).pop (hDepth ▸ hBound)
  · intro i hLater
    exact hKept.fresh i (Nat.le_of_succ_le hLater)

/- The owner of the top frame is the innermost open element. -/
theorem top_label
    {e : OpenElement}
    (hKept :
      Kept events bottom (e :: opens) ⟨top :: below, depth, time, notes⟩)
    (hOwner : top.entry.owner = depth) :
    top.label = some e.start :=
  (hKept.owned top (.head _)).innermost (hOwner.trans hKept.depth)

/- The depth of the element around the one that ends. -/
theorem outer_depth
    {e : OpenElement}
    (hKept : d.Kept events bottom (e :: opens)) :
    d.depth - 1 = opens.length := by
  rw [hKept.depth, List.length_cons, Nat.add_sub_cancel]

variable {e : OpenElement} {parent : Labelled α}

/- No frame of an element that starts later is known. -/
theorem fresh_ne_top
    {i : Nat}
    (hKept : Kept events bottom opens ⟨top :: below, depth, time, notes⟩)
    (hLater : time + 1 ≤ i) : some i ≠ top.label := by
  intro hLabel
  have hStarted : i < time :=
    hKept.started (hLabel ▸ List.Mem.head _)
  exact Nat.lt_irrefl i (Nat.lt_trans hStarted hLater)

/-
  The owner of the top frame ends; the frame is finished and the
  one below receives its product.
-/
theorem endFramed
    (hKept :
      Kept events bottom (e :: opens)
        ⟨top :: parent :: below, depth, time, notes⟩)
    (hOwner : top.entry.owner = depth)
    (hEnds : EndsAt events e.start time)
    (hNext : openAfter? 0 [] (events.take (time + 1)) = some opens)
    (product : Product α) :
    (tick (note top.label (.handed parent.label product)
      (note top.label (.finished product)
        ⟨parent :: below, depth - 1, time, notes⟩))).Kept events bottom
      opens := by
  have hDepth := hKept.outer_depth
  have hOrdered := hKept.ordered.tail hOwner
  have hDistinct := List.nodup_cons.mp hKept.distinct
  have hDeeds := fun label =>
    deeds_note_note top.label label (.finished product)
      (.handed parent.label product)
      ⟨parent :: below, depth - 1, time, notes⟩
  have hOther :
      ∀ label, label ≠ top.label →
        (note top.label (.handed parent.label product)
          (note top.label (.finished product)
            ⟨parent :: below, depth - 1, time, notes⟩)).deeds label =
          (⟨top :: parent :: below, depth, time, notes⟩ :
            Diary α).deeds label := by
    intro label hLabel
    rw [hDeeds label, if_neg (Ne.symm hLabel), List.append_nil]
    rfl
  refine ⟨hNext, hDepth, hOrdered, ?_, ?_, ?_, ?_, ?_⟩
  · intro owned hMem
    have hBound := hOrdered.bound owned.entry (List.mem_map_of_mem hMem)
    exact (hKept.owned owned (.tail _ hMem)).pop (hDepth ▸ hBound)
  · exact (List.getLast?_cons_cons ..).symm.trans hKept.last
  · refine hKept.waiting.2.congr ?_
    intro label hMem
    apply hOther
    rintro rfl
    exact hDistinct.1 hMem
  · intro i hLater
    exact (hOther (some i) (hKept.fresh_ne_top hLater)).trans
      (hKept.fresh i (Nat.le_of_succ_le hLater))
  · intro i hGone
    by_cases hLabel : some i = top.label
    · rcases hKept.waiting.1 with ⟨j, hBegan, hBegun⟩
      have hBegan : i = j := Option.some.inj (hLabel.trans hBegan)
      have hStart : i = e.start :=
        Option.some.inj (hLabel.trans (hKept.top_label hOwner))
      have hOld :
          (⟨parent :: below, depth - 1, time, notes⟩ : Diary α).deeds
              (some i) =
            [(i, .begun parent.label)] := by
        rw [hLabel, hBegan]
        exact hBegun
      rw [deeds_tick, hDeeds (some i), if_pos hLabel.symm, hOld]
      exact .finished (hStart ▸ hEnds)
    · have hMem :
          some i ∉ labels ⟨top :: parent :: below, depth, time, notes⟩ :=
        fun hMem => (List.mem_cons.mp hMem).elim hLabel hGone
      rw [deeds_tick, hOther (some i) hLabel]
      exact hKept.gone i hMem

/-
  The owner of the last frame ends; the frame is finished. What
  becomes of every frame is settled then.
-/
theorem endRoot
    (hKept :
      Kept events bottom (e :: opens) ⟨[top], depth, time, notes⟩)
    (hOwner : top.entry.owner = depth)
    (hEnds : EndsAt events e.start time)
    (product : Product α) :
    let d := note top.label (.finished product) ⟨[], depth - 1, time, notes⟩
    ∃ i,
      bottom = some i ∧ EndsAt events i time ∧
        d.deeds bottom = [(time, .finished product)] ∧
          ∀ j, j ≠ i → Life events none j (d.deeds (some j)) := by
  intro d
  have hBottom : top.label = bottom := Option.some.inj hKept.last
  have hTop := hKept.top_label hOwner
  have hDeeds :
      ∀ label,
        d.deeds label =
          (⟨[top], depth, time, notes⟩ : Diary α).deeds label ++
            if top.label = label then [(time, .finished product)]
            else [] :=
    fun label => deeds_note top.label label (.finished product) _
  refine ⟨e.start, hBottom.symm.trans hTop, hEnds, ?_, ?_⟩
  · have hWaiting :
        (⟨[top], depth, time, notes⟩ : Diary α).deeds top.label = [] :=
      hKept.waiting
    rw [hDeeds, if_pos hBottom, ← hBottom, hWaiting, List.nil_append]
  · intro j hOther
    have hLabel : top.label ≠ some j := by
      rw [hTop]
      rintro ⟨⟩
      exact hOther rfl
    rw [hDeeds, if_neg hLabel, List.append_nil]
    refine hKept.gone j ?_
    intro hMem
    exact hLabel (List.mem_singleton.mp hMem).symm

/- An error comes while none of the frames on the stack ends. -/
theorem spoilt
    {entries : List (Labelled α)}
    (hKept : Kept events bottom opens ⟨entries, depth, time, notes⟩)
    (hEnd : ∀ i, ¬ EndsAt events i time)
    (fault : Error)
    (depth' : Nat) :
    Spoilt events fault bottom ⟨entries, depth', time, notes⟩ where
  distinct := hKept.distinct
  waiting := hKept.waiting.congr fun _ _ => rfl
  last _ := hKept.last
  opened i hMem := ⟨hKept.isOpen hMem, hEnd i⟩
  gone i hGone _ := (hKept.gone i hGone).later (some fault)
  root _ hGone hBottom :=
    absurd (List.mem_of_getLast? (hBottom ▸ hKept.last)) hGone

/-
  The owner of the top frame ends, but the frame cannot be
  finished; it is given up.
-/
theorem endFailed
    (hKept :
      Kept events bottom (e :: opens) ⟨top :: below, depth, time, notes⟩)
    (hOwner : top.entry.owner = depth)
    (hEnds : EndsAt events e.start time)
    (fault : Error) :
    Spoilt events fault bottom
      (note top.label .aborted
        (note top.label (.failed fault)
          ⟨below, depth - 1, time, notes⟩)) := by
  have hTop := hKept.top_label hOwner
  have hDistinct := List.nodup_cons.mp hKept.distinct
  have hDeeds := fun label =>
    deeds_note_note top.label label (.failed fault) .aborted
      ⟨below, depth - 1, time, notes⟩
  have hOther :
      ∀ label, label ≠ top.label →
        (note top.label .aborted
          (note top.label (.failed fault)
            ⟨below, depth - 1, time, notes⟩)).deeds label =
          (⟨top :: below, depth, time, notes⟩ : Diary α).deeds label := by
    intro label hLabel
    rw [hDeeds label, if_neg (Ne.symm hLabel), List.append_nil]
    rfl
  have hLost :
      ∀ i, some i = top.label →
        Lost events fault i
          [(time, .failed fault), (time, (.aborted : Deed α))] := by
    intro i hLabel
    have hStart : i = e.start := Option.some.inj (hLabel.trans hTop)
    exact .failed (hStart ▸ hEnds)
  have hBelow : ∀ label ∈ below.map Labelled.label, label ≠ top.label := by
    rintro label hMem rfl
    exact hDistinct.1 hMem
  refine ⟨hDistinct.2, ?_, ?_, ?_, ?_, ?_⟩
  · cases below with
    | nil => trivial
    | cons parent below =>
        exact hKept.waiting.2.congr fun label hMem =>
          hOther label (hBelow label hMem)
  · intro hNonempty
    cases below with
    | nil => exact absurd rfl hNonempty
    | cons parent below =>
        exact (List.getLast?_cons_cons ..).symm.trans hKept.last
  · intro i hMem
    refine ⟨hKept.isOpen (.tail _ hMem), ?_⟩
    intro hEnd
    rw [hEnd.unique hKept.opened, ← hTop] at hMem
    exact hBelow _ hMem rfl
  · intro i hGone hUpper
    by_cases hLabel : some i = top.label
    · cases below with
      | nil =>
          have hBottom : top.label = bottom := Option.some.inj hKept.last
          exact absurd (hLabel.trans hBottom) hUpper
      | cons parent below =>
          rcases hKept.waiting.1 with ⟨j, hBegan, hBegun⟩
          have hBegan : i = j := Option.some.inj (hLabel.trans hBegan)
          have hOld :
              (⟨parent :: below, depth - 1, time, notes⟩ : Diary α).deeds
                  (some i) =
                [(i, .begun parent.label)] := by
            rw [hLabel, hBegan]
            exact hBegun
          rw [hDeeds (some i), if_pos hLabel.symm, hOld]
          exact .lost rfl (hLost i hLabel)
    · have hMem : some i ∉ labels ⟨top :: below, depth, time, notes⟩ :=
        fun hMem => (List.mem_cons.mp hMem).elim hLabel hGone
      rw [hOther (some i) hLabel]
      exact (hKept.gone i hMem).later (some fault)
  · intro i hGone hBottom
    cases below with
    | nil =>
        have hLabel : some i = top.label :=
          hBottom.trans (Option.some.inj hKept.last).symm
        have hOld :
            (⟨[], depth - 1, time, notes⟩ : Diary α).deeds (some i) =
              [] := by
          rw [hLabel]
          exact hKept.waiting
        rw [hDeeds (some i), if_pos hLabel.symm, hOld]
        exact hLost i hLabel
    | cons parent below =>
        have hLast := hKept.last
        rw [labels, List.map_cons, List.map_cons, List.getLast?_cons_cons,
          ← hBottom] at hLast
        exact absurd (List.mem_of_getLast? hLast) hGone

end Kept

------------------------------------------------------------
-- One event
------------------------------------------------------------

/-
  What an event makes of a diary: frames wait on, or what has
  become of each of them is settled, or an error has come.
-/
def Fed.Follows
    (events : List Event)
    (bottom : FrameLabel)
    (fed : Fed α) : Prop :=
  match fed.result with
  | .ok none => ∃ opens, fed.diary.tick.Kept events bottom opens
  | .ok (some product) =>
      ∃ i j,
        bottom = some i ∧ EndsAt events i j ∧
          fed.diary.deeds bottom = [(j, .finished product)] ∧
            ∀ i', i' ≠ i → Life events none i' (fed.diary.deeds (some i'))
  | .error fault => fed.diary.Spoilt events fault bottom

/- An event that is no end tag ends no element. -/
theorem not_endsAt
    {events : List Event}
    {event : Event}
    {n : Nat}
    (hEvent : events[n]? = some event)
    (hTag : ∀ name, event ≠ .endTag name)
    (i : Nat) : ¬ EndsAt events i n := by
  rintro ⟨name, outer, -, hEnd⟩
  exact hTag name (Option.some.inj (hEvent.symm.trans hEnd))

variable [Scalar α]

/- Frames wait on while events are nested. -/
theorem Kept.feed
    {events : List Event}
    {bottom : FrameLabel}
    {opens : List OpenElement}
    {d : Diary α}
    {event : Event}
    (hKept : d.Kept events bottom opens)
    (hNested : Nested events)
    (hEvent : events[d.time]? = some event)
    (env : Environment α)
    (handler : StartHandler α)
    (place : Location)
    (st : RenderState α) :
    (d.feed env handler place st event).Follows events bottom := by
  rcases hNested.open? hKept.opened hEvent with ⟨next, hOpen, hNext⟩
  rcases d with ⟨entries, depth, time, notes⟩
  cases event with
  | text content =>
      cases hOpen
      exact ⟨opens, hKept.text hNext⟩
  | startTag name attributes =>
      cases hOpen
      have hEnd := not_endsAt hEvent (by simp)
      cases entries with
      | nil => exact hKept.spoilt hEnd _ _
      | cons top below =>
          simp only [Diary.feed, Diary.startElement]
          generalize
            (handler top.entry.frame ⟨place, name, attributes⟩).perform st =
              outcome
          rcases outcome with ⟨fault | ⟨frame, _ | child⟩, st'⟩
          · exact hKept.spoilt hEnd fault _
          · exact ⟨_, (hKept.retop frame).startFrameless hNext⟩
          · exact ⟨_, (hKept.retop frame).startFramed hNext child⟩
  | endTag name =>
      cases opens with
      | nil => cases hOpen
      | cons e outer =>
          have hName : e.name = name ∧ outer = next := by
            simpa [Event.open?] using hOpen
          rcases hName with ⟨rfl, rfl⟩
          have hEnds : EndsAt events e.start time :=
            ⟨e.name, outer, hKept.opened, hEvent⟩
          cases entries with
          | nil =>
              have hLast := hKept.last
              cases hLast
          | cons top below =>
              simp only [Diary.feed, Diary.endElement]
              by_cases hOwner : top.entry.owner = depth
              · rw [if_neg (by simpa using hOwner)]
                generalize (top.entry.frame.finish env).perform st = outcome
                rcases outcome with ⟨fault | product, st'⟩
                · exact hKept.endFailed hOwner hEnds fault
                · cases below with
                  | nil =>
                      rcases hKept.endRoot hOwner hEnds product with
                        ⟨i, hRoot⟩
                      exact ⟨i, time, hRoot⟩
                  | cons parent below =>
                      have hDone :=
                        hKept.endFramed hOwner hEnds hNext product
                      exact ⟨outer, hDone.retop _⟩
              · rw [if_pos (by simpa using hOwner)]
                exact ⟨outer, (hKept.retop _).endFrameless hOwner hNext⟩

------------------------------------------------------------
-- Runs
------------------------------------------------------------

/- No event follows: the items end or there is an error. -/
def Halts : List Item → Prop
| [] => True
| .error _ :: _ => True
| .ok _ :: _ => False

/- Some events and what follows them. -/
def itemsOf
    (located : List (Location × Event))
    (tail : List Item) : List Item :=
  located.map .ok ++ tail

section Runs

variable {events : List Event} {bottom : FrameLabel}
variable {opens : List OpenElement} {d : Diary α}

omit [Scalar α] in
/- What has become of the frames when the events have ended. -/
theorem Kept.spoilt_at_end
    (hKept : d.Kept events bottom opens)
    (hDone : events.drop d.time = [])
    (fault : Error) :
    d.Spoilt events fault bottom := by
  refine hKept.spoilt ?_ fault d.depth
  rintro i ⟨name, outer, -, hEnd⟩
  have hLength := (List.getElem?_eq_some_iff.mp hEnd).1
  rw [List.drop_eq_nil_iff] at hDone
  omega

omit [Scalar α] in
/- The event that comes next, and those after it. -/
theorem next_event
    {n : Nat}
    {event : Event}
    {rest : List Event}
    (hRest : event :: rest = events.drop n) :
    events[n]? = some event ∧ rest = events.drop (n + 1) := by
  constructor
  · have hHead := congrArg List.head? hRest
    rw [List.head?_drop] at hHead
    exact hHead.symm
  · have hTail := congrArg List.tail hRest
    rwa [List.tail_cons, List.tail_drop] at hTail

/- What becomes of the frames of a fragment. -/
theorem runOpenFragment_lives
    (hNested : Nested events)
    (env : Environment α)
    (handler : StartHandler α)
    (located : List (Location × Event))
    {tail : List Item}
    (hHalts : Halts tail)
    (hKept : d.Kept events (some 0) opens)
    (hRest : located.map Prod.snd = events.drop d.time)
    (st : RenderState α) :
    let run := d.runOpenFragment env handler st (itemsOf located tail)
    RootLife events run.1 (run.2.1.deeds (some 0)) ∧
      ∀ i, i ≠ 0 →
        Life events (faultOf? run.1) i (run.2.1.deeds (some i)) := by
  have hLost :
      ∀ (d : Diary α) (st : RenderState α) (fault : Error),
        d.Spoilt events fault (some 0) →
          RootLife events (.error fault : Except Error (Product α))
              ((d.unwind st).1.deeds (some 0)) ∧
            ∀ i, i ≠ 0 →
              Life events (some fault) i
                ((d.unwind st).1.deeds (some i)) := by
    intro d st fault hSpoilt
    constructor
    · exact .lost ((hSpoilt.unwind st 0).2 rfl)
    · intro i hOther
      exact (hSpoilt.unwind st i).1 (by simpa using hOther)
  induction located generalizing d opens st with
  | nil =>
      have hSpoilt := hKept.spoilt_at_end hRest.symm
      match tail, hHalts with
      | [], _ => exact hLost d st env.truncated (hSpoilt _)
      | .error fault :: _, _ => exact hLost d st fault (hSpoilt fault)
  | cons item located ih =>
      rcases item with ⟨place, event⟩
      rcases next_event hRest with ⟨hEvent, hRest⟩
      have hFollows := hKept.feed hNested hEvent env handler place st
      rw [itemsOf, List.map_cons, List.cons_append, runOpenFragment]
      rcases hFed : d.feed env handler place st event with
        ⟨fault | (_ | product), next, st'⟩
      · rw [hFed] at hFollows
        exact hLost next st' fault hFollows
      · rw [hFed] at hFollows
        rcases hFollows with ⟨opens', hNext⟩
        have hTime := feed_time env handler place d st event
        rw [hFed] at hTime
        refine ih hNext ?_ st'
        rw [hRest]
        exact congrArg (fun time => events.drop (time + 1)) hTime.symm
      · rw [hFed] at hFollows
        rcases hFollows with ⟨i, j, hRoot, hEnds, hDeeds, hOthers⟩
        cases hRoot
        refine ⟨?_, hOthers⟩
        rw [hDeeds]
        exact .finished hEnds

/- What becomes of the frames of elements when a part ends. -/
theorem endPart_lives
    (hKept : d.Kept events none opens)
    (hDone : events.drop d.time = [])
    (env : Environment α)
    (st : RenderState α)
    (i : Nat) :
    Life events (faultOf? (d.endPart env st).1) i
      ((d.endPart env st).2.1.deeds (some i)) := by
  have hSpoilt := hKept.spoilt_at_end hDone env.truncated
  have hLost := (hSpoilt.unwind st i).1 nofun
  rcases d with ⟨_ | ⟨root, _ | ⟨next, below⟩⟩, _ | depth, time, notes⟩
  case cons.nil.zero =>
    have hBottom : root.label = none := Option.some.inj hKept.last
    have hLabel : root.label ≠ some i := by simp [hBottom]
    have hGone := hKept.gone i (by simp [labels, hBottom])
    simp only [endPart]
    rcases (root.entry.frame.finish env).perform st with
      ⟨fault | product, st'⟩
    · dsimp only
      rw [deeds_note, if_neg hLabel, List.append_nil]
      exact hGone.later (some fault)
    · dsimp only
      rw [deeds_note, if_neg hLabel, List.append_nil]
      exact hGone
  all_goals exact hLost

/- What becomes of the frames of the elements of a part. -/
theorem runPart_lives
    (hNested : Nested events)
    (env : Environment α)
    (handler : StartHandler α)
    (located : List (Location × Event))
    {tail : List Item}
    (hHalts : Halts tail)
    (hKept : d.Kept events none opens)
    (hRest : located.map Prod.snd = events.drop d.time)
    (st : RenderState α)
    (i : Nat) :
    let run := d.runPart env handler st (itemsOf located tail)
    Life events (faultOf? run.1) i (run.2.1.deeds (some i)) := by
  induction located generalizing d opens st with
  | nil =>
      match tail, hHalts with
      | [], _ => exact endPart_lives hKept hRest.symm env st i
      | .error fault :: _, _ =>
          have hSpoilt := hKept.spoilt_at_end hRest.symm fault
          exact (hSpoilt.unwind st i).1 nofun
  | cons item located ih =>
      rcases item with ⟨place, event⟩
      rcases next_event hRest with ⟨hEvent, hRest⟩
      have hFollows := hKept.feed hNested hEvent env handler place st
      have hTime := feed_time env handler place d st event
      rw [itemsOf, List.map_cons, List.cons_append, runPart]
      rcases hFed : d.feed env handler place st event with
        ⟨fault | (_ | product), next, st'⟩
      · rw [hFed] at hFollows
        exact (hFollows.unwind st' i).1 nofun
      · rw [hFed] at hFollows hTime
        rcases hFollows with ⟨opens', hNext⟩
        refine ih hNext ?_ st'
        rw [hRest]
        exact congrArg (fun time => events.drop (time + 1)) hTime.symm
      · rw [hFed] at hFollows
        rcases hFollows with ⟨j, k, hRoot, -⟩
        cases hRoot

omit [Scalar α] in
/- A part before its first event. -/
theorem Kept.ofPart
    (events : List Event)
    (root : Frame α) :
    (Diary.ofPart root).Kept events none [] where
  opened := rfl
  depth := rfl
  ordered := .root root (Nat.le_refl 0)
  owned owned hMem := by
    rcases List.mem_singleton.mp hMem with rfl
    rfl
  last := rfl
  waiting := rfl
  fresh _ _ := rfl
  gone _ _ := .frameless

omit [Scalar α] in
/- A fragment whose first element has started. -/
theorem Kept.ofOpenElement
    (name : String)
    (attributes : List Attribute)
    (events : List Event)
    (root : Frame α) :
    (Diary.ofOpenElement root).Kept (.startTag name attributes :: events)
      (some 0) [⟨0, name⟩] where
  opened := by
    rw [Diary.ofOpenElement, List.take_succ_cons, List.take_zero]
    rfl
  depth := rfl
  ordered := .root root (Nat.le_refl 1)
  owned owned hMem := by
    rcases List.mem_singleton.mp hMem with rfl
    exact ⟨[], name, [], rfl, rfl⟩
  last := rfl
  waiting := rfl
  fresh _ _ := rfl
  gone _ _ := .frameless

end Runs

end Diary

------------------------------------------------------------
-- Rendering
------------------------------------------------------------

variable [Scalar α]

omit [Scalar α] in
/- A fragment that starts well starts with a start tag. -/
theorem fragmentRoot_itemsOf
    {env : Environment α}
    {expected? : Option String}
    {located : List (Location × Event)}
    {tail rest : List Item}
    (hHalts : Diary.Halts tail)
    (hRoot :
      fragmentRoot env expected? (Diary.itemsOf located tail) = .ok rest) :
    ∃ place name attributes more,
      located = (place, .startTag name attributes) :: more ∧
        rest = Diary.itemsOf more tail := by
  cases located with
  | nil =>
      match tail, hHalts with
      | [], _ => cases hRoot
      | .error fault :: _, _ => cases hRoot
  | cons item more =>
      rcases item with ⟨place, event⟩
      cases event with
      | text content => cases hRoot
      | endTag name => cases hRoot
      | startTag name attributes =>
          refine ⟨place, name, attributes, more, rfl, ?_⟩
          cases expected? with
          | none =>
              cases hRoot
              rfl
          | some expected =>
              rw [Diary.itemsOf, List.map_cons, List.cons_append,
                fragmentRoot] at hRoot
              split at hRoot
              · cases hRoot
                rfl
              · cases hRoot

/- The runs that are begun while a page is rendered, and its own. -/
inductive Run.Fresh : Run α → Prop
  | page
      (items : List Item) : Fresh (.ofPage items)
  | brush
      (items : List Item) : Fresh (.ofBrush items)
  | dictionary
      (items : List Item) : Fresh (.ofDictionary items)
  | matrix
      (items : List Item) : Fresh (.ofMatrix items)

/- The frames of a run that begins are in order. -/
theorem Run.Fresh.ordered
    {run : Run α}
    (hFresh : run.Fresh) : run.stack.Ordered := by
  cases hFresh with
  | page => exact .root _ (Nat.le_refl 0)
  | brush => exact .root _ (Nat.le_refl 1)
  | dictionary => exact .root _ (Nat.le_refl 1)
  | matrix => exact .root _ (Nat.le_refl 1)

/- The frames of every run under way are in order. -/
theorem Active.all_ordered
    {env : Environment α}
    {first : Run α}
    {runs : List (Run α)}
    {st₀ st : RenderState α}
    (hFirst : first.stack.Ordered)
    (hActive : Active env first st₀ runs st) :
    ∀ run ∈ runs, run.stack.Ordered := by
  have hInner :
      ∀ {run : Run α} {outer : List (Run α)} {st : RenderState α},
        Active env first st₀ (run :: outer) st →
          (∀ run ∈ outer, run.stack.Ordered) →
            ∀ other ∈ run :: outer, other.stack.Ordered := by
    intro run outer st hActive hOuter other hMem
    rcases List.mem_cons.mp hMem with rfl | hMem
    · exact hActive.ordered hFirst
    · exact hOuter other hMem
  induction hActive with
  | start => exact hInner .start (by simp)
  | step hRun hFed hGoes ih =>
      exact hInner (.step hRun hFed hGoes) fun run hMem =>
        ih run (.tail _ hMem)
  | fail hRun hFed ih =>
      exact hInner (.fail hRun hFed) fun run hMem => ih run (.tail _ hMem)
  | fault hRun ih =>
      exact hInner (.fault hRun) fun run hMem => ih run (.tail _ hMem)
  | truncated hRun hOpen ih =>
      exact hInner (.truncated hRun hOpen) fun run hMem =>
        ih run (.tail _ hMem)
  | unwound hRun ih =>
      exact hInner (.unwound hRun) fun run hMem => ih run (.tail _ hMem)
  | brush hRun hAsks hStored hFragment ih =>
      exact hInner (.brush hRun hAsks hStored hFragment) ih
  | matrix hRun hAsks hStored hFragment ih =>
      exact hInner (.matrix hRun hAsks hStored hFragment) ih
  | dictionary hRun hFrame hSource hPart hItems hFragment ih =>
      exact hInner
        (.dictionary hRun hFrame hSource hPart hItems hFragment) ih

/-
  In every state of a rendering, the owners of the frames on
  each stack are one inside the other, none deeper than the open
  element. Over nested events that end early or with an error,
  the frame that an element owns is finished once, at the end
  tag that matches the start tag of the element, and the frame
  that was on top when the element started receives its product;
  or it is given up once and never finished afterwards, as
  finishing it has failed or an error has come before, and the
  run fails. The same holds of a fragment, whose first element
  owns the root frame: its product is the result.
-/
theorem frames_finishedOnce
    (env : Environment α) :
    (∀ (first : Run α) (runs : List (Run α)) (st₀ st : RenderState α),
        first.Fresh → Active env first st₀ runs st →
          ∀ run ∈ runs, run.stack.Ordered) ∧
      (∀ (located : List (Location × Event)) (tail : List Item)
        (st : RenderState α),
        let items := Diary.itemsOf located tail
        let events := located.map Prod.snd
        let run :=
          (Diary.ofPart (.content ⟨none, 0⟩)).runPart env
            (startElement env (pageBrush env)) st items
        renderItems env items st = (run.1, run.2.2) ∧
          (Nested events → Diary.Halts tail →
            ∀ i, Life events (faultOf? run.1) i
              (run.2.1.deeds (some i)))) ∧
      (∀ (handler : StartHandler α) (root : Frame α)
        (expected? : Option String)
        (located : List (Location × Event)) (tail : List Item)
        (st : RenderState α),
        let items := Diary.itemsOf located tail
        let events := located.map Prod.snd
        let run := Diary.runFragment env handler root expected? items st
        (runFragment env handler root expected? items).perform st =
            (run.1, run.2.2) ∧
          (Nested events → Diary.Halts tail →
            (∀ i, i ≠ 0 →
              Life events (faultOf? run.1) i
                (run.2.1.deeds (some i))) ∧
            (match fragmentRoot env expected? items with
              | .ok _ => RootLife events run.1 (run.2.1.deeds (some 0))
              | .error _ => run.2.1.deeds (some 0) = []))) := by
  refine ⟨?_, ?_, ?_⟩
  · intro first runs st₀ st hFresh hActive
    exact hActive.all_ordered hFresh.ordered
  · intro located tail st items events run
    have hForget :=
      Diary.runPart_forget env (startElement env (pageBrush env))
        (.ofPart (.content ⟨none, 0⟩)) st items
    refine ⟨hForget.symm, ?_⟩
    intro hNested hHalts
    exact
      Diary.runPart_lives hNested env _ located hHalts
        (.ofPart events _) rfl st
  · intro handler root expected? located tail st items events run
    refine
      ⟨(Diary.runFragment_forget env handler root expected? items
        st).symm, ?_⟩
    intro hNested hHalts
    cases hRoot : fragmentRoot env expected? items with
    | error fault =>
        have hRun : run = (.error fault, ⟨[], 0, 0, []⟩, st) := by
          simp only [run, Diary.runFragment, hRoot]
        rw [hRun]
        exact ⟨fun _ _ => .frameless, rfl⟩
    | ok rest =>
        rcases fragmentRoot_itemsOf hHalts hRoot with
          ⟨place, name, attributes, more, hLocated, rfl⟩
        have hRun :
            run =
              (Diary.ofOpenElement root).runOpenFragment env handler st
                (Diary.itemsOf more tail) := by
          simp only [run, Diary.runFragment, hRoot]
        have hKept :=
          Diary.Kept.ofOpenElement name attributes (more.map Prod.snd)
            root
        have hEvents :
            events = .startTag name attributes :: more.map Prod.snd := by
          simp only [events, hLocated, List.map_cons]
        rw [hEvents] at hNested ⊢
        rw [hRun]
        have hLives :=
          Diary.runOpenFragment_lives hNested env handler more hHalts hKept
            rfl st
        exact ⟨hLives.2, hLives.1⟩

------------------------------------------------------------
-- A page that ends too early
------------------------------------------------------------

namespace OpenCanvas

/- A canvas that ends inside one that does not. -/
def located : List (Location × Event) :=
  [.startTag "FixedPage" [], .startTag "Canvas" [],
    .startTag "Canvas" [], .endTag "Canvas"].map
      (Prod.mk ⟨"page", 1, 1⟩)

/- The events of the page. -/
def events : List Event :=
  located.map Prod.snd

/- What is done when the page is rendered. -/
def run : Except Error Unit × Diary ℚ × RenderState ℚ :=
  (Diary.ofPart (.content ⟨none, 0⟩)).runPart .empty
    (startElement .empty (pageBrush .empty))
    (.start .empty .empty .empty) (Diary.itemsOf located [])

end OpenCanvas

/- The inner canvas is finished and the outer one is given up. -/
theorem OpenCanvas.frames_givenUp :
    OpenCanvas.run.2.1.deeds (some 2) =
        [(2, .begun (some 1)), (3, .finished .none),
          (3, .handed (some 1) .none)] ∧
      OpenCanvas.run.2.1.deeds (some 1) =
        [(1, .begun none), (4, .aborted)] ∧
      ∀ i,
        Life OpenCanvas.events (faultOf? OpenCanvas.run.1) i
          (OpenCanvas.run.2.1.deeds (some i)) := by
  refine ⟨by decide +kernel, by decide +kernel, ?_⟩
  have hNested : Nested OpenCanvas.events := by decide
  exact
    ((frames_finishedOnce .empty).2.1 OpenCanvas.located []
      (.start .empty .empty .empty)).2 hNested trivial

end FixedPage
