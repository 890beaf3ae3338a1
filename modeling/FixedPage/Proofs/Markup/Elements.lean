import FixedPage.Markup.Event
import Mathlib.Data.List.Basic

/-
  This file describes markup as elements one after the other with
  elements in them. Events write them down when their tags are
  those of the elements; the places of the events and the text
  between the tags do not matter.

  It also matches the end tags of some events with their start
  tags. Elements are told apart by the numbers of their start
  tags, so that elements of one name are not mixed up. Events
  are nested when every end tag has the name of the innermost
  open element; at their end, elements may still be open.

  Main declarations:
    * `Elements`
    * `Elements.tags`
    * `Elements.Among`
    * `tagsOf`
    * `openAfter?`
    * `Nested`
    * `EndsAt`
    * `IsOpen`
-/

namespace FixedPage.Markup

------------------------------------------------------------
-- Elements
------------------------------------------------------------

/- Elements one after the other: the first one, and the rest. -/
inductive Elements where
  | none
  | element
      (name : String)
      (attributes : List Attribute)
      (inner rest : Elements)
deriving DecidableEq, Repr

namespace Elements

/- The tags of elements in order. -/
def tags : Elements → List Event
| none => []
| element name attributes inner rest =>
    .startTag name attributes
      :: (inner.tags ++ .endTag name :: rest.tags)

/- Elements after elements. -/
def append : Elements → Elements → Elements
| none, more => more
| element name attributes inner rest, more =>
    element name attributes inner (rest.append more)

instance : Append Elements where
  append := append

/- The outermost elements have some of these names. -/
def Among
    (names : List String) : Elements → Prop
| none => True
| element name _ _ rest => name ∈ names ∧ rest.Among names

@[simp] theorem none_append
    (more : Elements) :
    none ++ more = more :=
  rfl

@[simp] theorem element_append
    (name : String)
    (attributes : List Attribute)
    (inner rest more : Elements) :
    element name attributes inner rest ++ more =
      element name attributes inner (rest ++ more) :=
  rfl

end Elements

------------------------------------------------------------
-- Events
------------------------------------------------------------

/- An event that is a tag. -/
def Event.tag? : Event → Option Event
| .text _ => none
| tag => some tag

/- The tags among some events. -/
def tagsOf
    (items : List (Location × Event)) : List Event :=
  items.filterMap fun item => item.2.tag?

variable {items : List (Location × Event)}

/- A tag is written somewhere between others. -/
theorem tagsOf_eq_cons
    {tag : Event}
    {tags : List Event}
    (hTags : tagsOf items = tag :: tags) :
    ∃ lead place rest,
      items = lead ++ (place, tag) :: rest ∧
        tagsOf lead = [] ∧ tagsOf rest = tags := by
  rcases List.filterMap_eq_cons_iff.mp hTags with
    ⟨lead, ⟨place, event⟩, rest, hItems, hLead, hTag, hRest⟩
  have hSame : event = tag := by
    cases event <;> cases hTag <;> rfl
  refine ⟨lead, place, rest, hSame ▸ hItems, ?_, hRest⟩
  exact List.filterMap_eq_nil_iff.mpr hLead

/- Tags after tags are written one after the other. -/
theorem tagsOf_eq_append
    {first more : List Event}
    (hTags : tagsOf items = first ++ more) :
    ∃ front back,
      items = front ++ back ∧
        tagsOf front = first ∧ tagsOf back = more :=
  List.filterMap_eq_append_iff.mp hTags

/- An element is written before others. -/
theorem tagsOf_eq_element
    {name : String}
    {attributes : List Attribute}
    {inner more : List Event}
    (hTags :
      tagsOf items =
        .startTag name attributes :: (inner ++ .endTag name :: more)) :
    ∃ lead place within gap close rest,
      items =
          lead
            ++ (place, .startTag name attributes)
              :: (within ++ (gap ++ (close, .endTag name) :: rest)) ∧
        tagsOf lead = [] ∧ tagsOf within = inner ∧
          tagsOf gap = [] ∧ tagsOf rest = more := by
  rcases tagsOf_eq_cons hTags with
    ⟨lead, place, back, rfl, hLead, hBack⟩
  rcases tagsOf_eq_append hBack with
    ⟨within, tail, rfl, hWithin, hTail⟩
  rcases tagsOf_eq_cons hTail with
    ⟨gap, close, rest, rfl, hGap, hRest⟩
  exact
    ⟨lead, place, within, gap, close, rest, rfl, hLead, hWithin,
      hGap, hRest⟩

/- Every tag of elements is a tag. -/
theorem Elements.tag?_tags
    (elements : Elements) :
    elements.tags.filterMap Event.tag? = elements.tags := by
  induction elements with
  | none => rfl
  | element name attributes inner rest ihInner ihRest =>
      simp only [tags, List.filterMap_cons, Event.tag?,
        List.filterMap_append, ihInner, ihRest]

/- Events at some places have the tags that they are. -/
theorem tagsOf_eq_tags
    {elements : Elements}
    (hItems : items.map Prod.snd = elements.tags) :
    tagsOf items = elements.tags := by
  have hMap :
      tagsOf items = (items.map Prod.snd).filterMap Event.tag? := by
    unfold tagsOf
    rw [List.filterMap_map]
    rfl
  rw [hMap, hItems, elements.tag?_tags]

end FixedPage.Markup

namespace FixedPage.Markup

------------------------------------------------------------
-- Open elements
------------------------------------------------------------

/- An open element: the number of its start tag, and its name. -/
structure OpenElement where
  start : Nat
  name : String
deriving DecidableEq, Repr

/-
  The open elements after event number `n`, the innermost first,
  or none if it is an end tag that does not match.
-/
def Event.open?
    (n : Nat)
    (opens : List OpenElement) : Event → Option (List OpenElement)
| .startTag name _ => some (⟨n, name⟩ :: opens)
| .endTag name =>
    match opens with
    | [] => none
    | e :: outer => if e.name = name then some outer else none
| .text _ => some opens

/- The open elements after some events, numbered from `n` on. -/
def openAfter?
    (n : Nat)
    (opens : List OpenElement) :
    List Event → Option (List OpenElement)
| [] => some opens
| event :: rest =>
    match event.open? n opens with
    | some next => openAfter? (n + 1) next rest
    | none => none

/- Every end tag matches the innermost open element. -/
def Nested
    (events : List Event) : Prop :=
  (openAfter? 0 [] events).isSome

/- Event number `j` is the end tag of the element started by `i`. -/
def EndsAt
    (events : List Event)
    (i j : Nat) : Prop :=
  ∃ name outer,
    openAfter? 0 [] (events.take j) = some (⟨i, name⟩ :: outer) ∧
      events[j]? = some (.endTag name)

/- The element started by event number `i` is open before `k`. -/
def IsOpen
    (events : List Event)
    (i k : Nat) : Prop :=
  ∃ opens,
    openAfter? 0 [] (events.take k) = some opens ∧
      ∃ e ∈ opens, e.start = i

instance
    (events : List Event) : Decidable (Nested events) :=
  inferInstanceAs (Decidable ((openAfter? 0 [] events).isSome = true))

------------------------------------------------------------
-- One event after the other
------------------------------------------------------------

variable {opens next : List OpenElement} {n : Nat}

/- Events go on where those before them have ended. -/
theorem openAfter?_append
    (events more : List Event) :
    openAfter? n opens (events ++ more) =
      (openAfter? n opens events).bind fun opens =>
        openAfter? (n + events.length) opens more := by
  induction events generalizing n opens with
  | nil => rfl
  | cons event events ih =>
      simp only [List.cons_append, openAfter?, List.length_cons]
      cases event.open? n opens with
      | none => rfl
      | some next =>
          have hRest := @ih next (n + 1)
          rwa [Nat.add_assoc, Nat.add_comm 1] at hRest

/- The open elements after one event more. -/
theorem openAfter?_take_succ
    {events : List Event}
    {event : Event}
    (hOpens : openAfter? 0 [] (events.take n) = some opens)
    (hEvent : events[n]? = some event) :
    openAfter? 0 [] (events.take (n + 1)) = event.open? n opens := by
  have hLength : n < events.length :=
    (List.getElem?_eq_some_iff.mp hEvent).1
  have hTaken : (events.take n).length = n := by
    rw [List.length_take]
    omega
  rw [List.take_add_one, hEvent, openAfter?_append, hOpens, hTaken,
    Option.bind_some, Option.toList_some, openAfter?, Nat.zero_add]
  cases event.open? n opens <;> rfl

/- The events before any of nested ones are nested. -/
theorem Nested.take
    {events : List Event}
    (hNested : Nested events)
    (n : Nat) : Nested (events.take n) := by
  unfold Nested at *
  rw [← List.take_append_drop n events, openAfter?_append] at hNested
  cases hOpens : openAfter? 0 [] (events.take n) with
  | none =>
      rw [hOpens] at hNested
      cases hNested
  | some opens => rfl

/- An event of nested ones leaves some elements open. -/
theorem Nested.open?
    {events : List Event}
    {event : Event}
    (hNested : Nested events)
    (hOpens : openAfter? 0 [] (events.take n) = some opens)
    (hEvent : events[n]? = some event) :
    ∃ next,
      event.open? n opens = some next ∧
        openAfter? 0 [] (events.take (n + 1)) = some next := by
  rw [← openAfter?_take_succ hOpens hEvent]
  have hNext := hNested.take (n + 1)
  unfold Nested at hNext
  rcases Option.isSome_iff_exists.mp hNext with ⟨next, hNext⟩
  exact ⟨next, hNext, hNext⟩

------------------------------------------------------------
-- Order
------------------------------------------------------------

/- The open elements are numbered from the outermost one on. -/
def Rising
    (n : Nat)
    (opens : List OpenElement) : Prop :=
  (∀ e ∈ opens, e.start < n) ∧
    opens.Pairwise fun inner outer => outer.start < inner.start

/- An event keeps the open elements in order. -/
theorem Rising.open?
    {event : Event}
    (hRising : Rising n opens)
    (hNext : event.open? n opens = some next) :
    Rising (n + 1) next := by
  have hLater : Rising (n + 1) opens :=
    ⟨fun e hMem => Nat.lt_succ_of_lt (hRising.1 e hMem), hRising.2⟩
  cases event with
  | startTag name attributes =>
      cases hNext
      refine ⟨?_, List.pairwise_cons.mpr ⟨hRising.1, hRising.2⟩⟩
      rintro e (_ | ⟨_, hMem⟩)
      · exact Nat.lt_succ_self n
      · exact hLater.1 e hMem
  | endTag name =>
      cases opens with
      | nil => cases hNext
      | cons e outer =>
          simp only [Event.open?] at hNext
          split at hNext
          · cases hNext
            exact ⟨fun e hMem => hLater.1 e (.tail _ hMem),
              (List.pairwise_cons.mp hLater.2).2⟩
          · cases hNext
  | text content =>
      cases hNext
      exact hLater

/- The open elements are in order after any events. -/
theorem rising_openAfter?
    {events : List Event}
    (hRising : Rising n opens)
    (hNext : openAfter? n opens events = some next) :
    Rising (n + events.length) next := by
  induction events generalizing n opens with
  | nil =>
      cases hNext
      exact hRising
  | cons event events ih =>
      simp only [openAfter?] at hNext
      split at hNext
      · rename_i mid hMid
        have hRest := ih (hRising.open? hMid) hNext
        rwa [Nat.add_assoc, Nat.add_comm 1] at hRest
      · cases hNext

/- No open element is started later or twice. -/
theorem rising_take
    {events : List Event}
    (hOpens : openAfter? 0 [] (events.take n) = some opens) :
    Rising n opens := by
  have hRising := rising_openAfter? ⟨by simp, .nil⟩ hOpens
  refine ⟨fun e hMem => ?_, hRising.2⟩
  have hStart := hRising.1 e hMem
  rw [List.length_take] at hStart
  omega

/- Only one element ends with an end tag. -/
theorem EndsAt.unique
    {events : List Event}
    {e : OpenElement}
    {i : Nat}
    (hEnds : EndsAt events i n)
    (hOpens : openAfter? 0 [] (events.take n) = some (e :: opens)) :
    i = e.start := by
  rcases hEnds with ⟨name, outer, hTake, -⟩
  rw [hTake] at hOpens
  cases hOpens
  rfl

end FixedPage.Markup
