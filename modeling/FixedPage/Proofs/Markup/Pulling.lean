import FixedPage.Proofs.Markup.Tags

/-
  This file shows how the events of a part are read one after the
  other. A reader that is asked for the next event cuts only as many
  tokens as it needs, and keeps the second event of a tag that is
  closed at once for the next time. What it gives are the items of
  the part: events that are nested, in the order of their places,
  then at most one fault, and nothing more after it or after the end.

  Main declarations:
    * `Reader`
    * `Reader.next`
    * `Reader.call_eq`
    * `exists_yielded`
    * `Answers`
    * `Reader.ofBytes_answers`
-/

namespace FixedPage.Markup

------------------------------------------------------------
-- Readers
------------------------------------------------------------

/-
  A reader of a part: all its bytes in UTF-8, those that are not yet
  cut and the number of the others, the place of the last token, the
  names of the open elements, an event that has been read but not
  been given, and whether nothing more is to come.
-/
structure Reader where
  source : String
  data : List UInt8
  tail : List UInt8
  offset : Nat
  cursor : Cursor
  openNames : List (List UInt8)
  pending? : Option (Location × Event)
  finished : Bool

namespace Reader

/- A reader of bytes in UTF-8. -/
def ofUtf8
    (source : String)
    (bytes : List UInt8) : Reader where
  source := source
  data := bytes
  tail := Encoding.dropMark bytes
  offset := 0
  cursor := .start bytes
  openNames := []
  pending? := none
  finished := false

/- A reader of a part in any of the accepted encodings. -/
def ofBytes
    (source : String)
    (bytes : List UInt8) : Except Error Reader :=
  match Encoding.normalize? bytes with
  | some bytes => .ok (.ofUtf8 source bytes)
  | none => .error (.markup ⟨source, 1, 1⟩ .loneSurrogate)

/-
  Cuts tokens until one gives an event or a fault, or until none is
  left.
-/
def pull
    (r : Reader) : Option Item × Reader :=
  let cursor :=
    r.cursor.moveTo (r.offset + leadingBlanks (r.data.drop r.offset))
  let place := cursor.location r.source
  match hCut : cut? r.tail with
  | none => (none, { r with cursor := cursor, finished := true })
  | some ⟨.error fault, _⟩ =>
      (some (.error (.markup place fault)),
        { r with cursor := cursor, finished := true })
  | some ⟨.ok token, size⟩ =>
      match interpret r.openNames token with
      | .error fault =>
          (some (.error (.markup place fault)),
            { r with cursor := cursor, finished := true })
      | .ok (events, openNames) =>
          let next :=
            { r with
              tail := r.tail.drop size
              offset := r.offset + size
              cursor := cursor
              openNames := openNames }
          match events with
          | [] => next.pull
          | event :: more =>
              (some (.ok (place, event)),
                { next with
                  pending? := more.head?.map fun e => (place, e) })
termination_by r.tail.length
decreasing_by
  have hSize := cut?_pos hCut
  have hLength := length_pos_of_cut? hCut
  rw [List.length_drop]
  omega

/- The next item, if there is one, and the reader behind it. -/
def next
    (r : Reader) : Option Item × Reader :=
  match r.pending? with
  | some pending =>
      (some (.ok pending), { r with pending? := none })
  | none => if r.finished then (none, r) else r.pull

/- The reader after it has been asked `n` times. -/
def after : Nat → Reader → Reader
| 0, r => r
| n + 1, r => after n r.next.2

/- What the reader gives when it is asked after `n` other times. -/
def call
    (r : Reader)
    (n : Nat) : Option Item :=
  (r.after n).next.1

------------------------------------------------------------
-- Items to come
------------------------------------------------------------

/- The items that a reader has not given yet. -/
def rest
    (r : Reader) : List Item :=
  r.pending?.toList.map .ok
    ++ if r.finished then []
      else
        items r.source r.offset (r.data.drop r.offset) r.cursor
          r.openNames (cuts r.tail)

/- A reader that has given all that it has read goes on cutting. -/
theorem rest_of_going
    {r : Reader}
    (hPending : r.pending? = none)
    (hGoing : r.finished = false) :
    r.rest =
      items r.source r.offset (r.data.drop r.offset) r.cursor
        r.openNames (cuts r.tail) := by
  unfold rest
  rw [hPending, hGoing]
  rfl

/- The events of a token come first, and then those behind it. -/
theorem rest_of_ok
    {r : Reader}
    {token : Token}
    {size : Nat}
    {events : List Event}
    {now : List (List UInt8)}
    (hPending : r.pending? = none)
    (hGoing : r.finished = false)
    (hCut : cut? r.tail = some ⟨.ok token, size⟩)
    (hOk : interpret r.openNames token = .ok (events, now)) :
    r.rest =
      let cursor :=
        r.cursor.moveTo (r.offset + leadingBlanks (r.data.drop r.offset))
      events.map (fun event => .ok (cursor.location r.source, event))
        ++ items r.source (r.offset + size)
            (r.data.drop (r.offset + size)) cursor now
            (cuts (r.tail.drop size)) := by
  rw [rest_of_going hPending hGoing, cuts_eq, hCut]
  dsimp only
  rw [items]
  dsimp only
  rw [hOk, List.drop_drop]

/- A fault is all that is still to come. -/
theorem rest_of_fault
    {r : Reader}
    {token : Except Fault Token}
    {size : Nat}
    {fault : Fault}
    (hPending : r.pending? = none)
    (hGoing : r.finished = false)
    (hCut : cut? r.tail = some ⟨token, size⟩)
    (hFault : token.bind (interpret r.openNames) = .error fault) :
    r.rest =
      let cursor :=
        r.cursor.moveTo (r.offset + leadingBlanks (r.data.drop r.offset))
      [.error (.markup (cursor.location r.source) fault)] := by
  rw [rest_of_going hPending hGoing, cuts_eq, hCut]
  cases token with
  | error found =>
      cases hFault
      rfl
  | ok token =>
      change interpret r.openNames token = .error fault at hFault
      dsimp only
      rw [items]
      dsimp only
      rw [hFault]

/- Nothing is to come behind the end. -/
theorem rest_of_finished
    {r : Reader}
    (hPending : r.pending? = none)
    (hFinished : r.finished = true) :
    r.rest = [] := by
  unfold rest
  rw [hPending, hFinished]
  rfl

/- Cutting tokens gives the first item to come and leaves the others. -/
theorem pull_rest
    {r : Reader}
    (hPending : r.pending? = none)
    (hGoing : r.finished = false) :
    r.pull.1 = r.rest.head? ∧ r.pull.2.rest = r.rest.tail := by
  fun_induction pull r with
  | case1 r cursor hCut =>
      have hRest : r.rest = [] := by
        rw [rest_of_going hPending hGoing, cuts_eq, hCut]
        rfl
      rw [hRest]
      exact ⟨rfl, rest_of_finished hPending rfl⟩
  | case2 r cursor place fault size hCut =>
      rw [rest_of_fault hPending hGoing hCut rfl]
      exact ⟨rfl, rest_of_finished hPending rfl⟩
  | case3 r cursor place token size hCut fault hFault =>
      rw [rest_of_fault hPending hGoing hCut hFault]
      exact ⟨rfl, rest_of_finished hPending rfl⟩
  | case4 r cursor token size hCut openNames next hOk ih =>
      -- A token without events leaves the same items to come.
      have hSame : r.rest = next.rest := by
        rw [rest_of_ok hPending hGoing hCut hOk,
          rest_of_going (r := next) hPending hGoing]
        rfl
      rw [hSame]
      exact ih hPending hGoing
  | case5 r cursor place token size hCut openNames next event more hOk =>
      rw [rest_of_ok hPending hGoing hCut hOk]
      refine ⟨rfl, ?_⟩
      -- Only a tag that is closed at once leaves an event for later.
      cases interpreted hOk <;>
      · unfold rest
        dsimp only [next]
        rw [hGoing]
        rfl

/- A reader gives the first item to come and keeps the others. -/
theorem next_rest
    (r : Reader) :
    r.next.1 = r.rest.head? ∧ r.next.2.rest = r.rest.tail := by
  unfold next
  cases hPending : r.pending? with
  | some pending =>
      constructor <;> simp [rest, hPending]
  | none =>
      cases hFinished : r.finished with
      | true =>
          rw [rest_of_finished hPending hFinished]
          exact ⟨rfl, rest_of_finished hPending hFinished⟩
      | false => exact pull_rest hPending hFinished

/- After some calls the first items are missing. -/
theorem after_rest
    (n : Nat)
    (r : Reader) :
    (r.after n).rest = r.rest.drop n := by
  induction n generalizing r with
  | zero => rfl
  | succ n ih =>
      rw [after, ih, (next_rest r).2, ← List.drop_one, List.drop_drop,
        Nat.add_comm]

/- What a reader gives, one after the other, are the items to come. -/
theorem call_eq
    (r : Reader)
    (n : Nat) :
    r.call n = r.rest[n]? := by
  unfold call
  rw [(next_rest _).1, after_rest, List.head?_drop]

/- A new reader has all items of its bytes to come. -/
theorem rest_ofUtf8
    (source : String)
    (bytes : List UInt8) :
    (ofUtf8 source bytes).rest = readUtf8 source bytes :=
  rfl

end Reader

------------------------------------------------------------
-- What is given
------------------------------------------------------------

/- Events at their places, and the fault that ends them, if any. -/
structure Yield where
  events : List (Location × Event)
  fault? : Option (Location × Fault)

namespace Yield

/- The items of the events and of the fault. -/
def items
    (y : Yield) : List Item :=
  y.events.map .ok
    ++ y.fault?.toList.map fun f => .error (.markup f.1 f.2)

/- The places of the events and of the fault. -/
def places
    (y : Yield) : List Location :=
  y.events.map Prod.fst ++ y.fault?.toList.map Prod.fst

/- No fault stands among the events, and no event after a fault. -/
theorem getElem?_items
    {y : Yield}
    {i : Nat}
    {given : Location × Event} :
    y.items[i]? = some (.ok given) ↔ y.events[i]? = some given := by
  unfold items
  rcases Nat.lt_or_ge i y.events.length with hEvent | hEnd
  · rw [List.getElem?_append_left (by simpa using hEvent),
      List.getElem?_map, Option.map_eq_some_iff]
    simp
  · rw [List.getElem?_append_right (by simpa using hEnd),
      List.getElem?_eq_none hEnd]
    refine iff_of_false (fun hFound => ?_) (by simp)
    have hMem := List.mem_of_getElem? hFound
    simp at hMem

/- Nothing stands after what is no event. -/
theorem getElem?_of_end
    {y : Yield}
    {n m : Nat}
    (hEnd : ∀ given, y.items[n]? ≠ some (.ok given))
    (hLater : n < m) :
    y.items[m]? = none := by
  have hEvents : y.events.length ≤ n := by
    refine Nat.le_of_not_lt fun hEvent => ?_
    exact
      hEnd y.events[n]
        (getElem?_items.mpr (List.getElem?_eq_getElem hEvent))
  have hFault : y.fault?.toList.length ≤ 1 := by
    cases y.fault? <;> simp
  refine List.getElem?_eq_none ?_
  unfold items
  rw [List.length_append, List.length_map, List.length_map]
  omega

/- What is given behind the events of one token. -/
def behind
    (place : Location)
    (events : List Event)
    (y : Yield) : Yield :=
  ⟨events.map (fun event => (place, event)) ++ y.events, y.fault?⟩

@[simp] theorem items_behind
    (place : Location)
    (events : List Event)
    (y : Yield) :
    (y.behind place events).items =
      events.map (fun event => .ok (place, event)) ++ y.items := by
  simp [items, behind]

@[simp] theorem places_behind
    (place : Location)
    (events : List Event)
    (y : Yield) :
    (y.behind place events).places =
      List.replicate events.length place ++ y.places := by
  simp [places, behind, Function.comp_def]

@[simp] theorem events_behind
    (place : Location)
    (events : List Event)
    (y : Yield) :
    (y.behind place events).events.map Prod.snd =
      events ++ y.events.map Prod.snd := by
  simp [behind, Function.comp_def]

end Yield

------------------------------------------------------------
-- Nesting and order
------------------------------------------------------------

/- The bytes of the open names are those of the open elements. -/
def NamesOpen
    (openNames : List (List UInt8))
    (opens : List OpenElement) : Prop :=
  List.Forall₂ (fun bytes e => decodeText bytes = .ok e.name)
    openNames opens

variable {openNames now : List (List UInt8)} {opens : List OpenElement}

/- What a token gives leaves the elements open whose names are. -/
theorem Interpreted.openAfter?
    {token : Token}
    {events : List Event}
    (hRead : Interpreted openNames token events now)
    (hOpens : NamesOpen openNames opens)
    (n : Nat) :
    ∃ later,
      Markup.openAfter? n opens events = some later ∧
        NamesOpen now later := by
  cases hRead with
  | opening read named => exact ⟨_, rfl, .cons named hOpens⟩
  | closedAtOnce read =>
      refine ⟨opens, ?_, hOpens⟩
      simp [Markup.openAfter?, Event.open?]
  | closing isOpen named =>
      subst isOpen
      cases hOpens with
      | cons hName hOuter =>
          cases named.symm.trans hName
          refine ⟨_, ?_, hOuter⟩
          simp [Markup.openAfter?, Event.open?]
  | text notTag content => exact ⟨opens, rfl, hOpens⟩
  | skipped => exact ⟨opens, rfl, hOpens⟩

/-
  The tokens of a part give nested events in the order of their
  places, and then at most one fault.
-/
theorem exists_yield
    (source : String)
    (bytes : List UInt8)
    (offset n : Nat)
    (hOpens : NamesOpen openNames opens)
    (cuts : List Cut) :
    ∃ y : Yield,
      itemsFrom source bytes offset openNames cuts = y.items ∧
        (openAfter? n opens (y.events.map Prod.snd)).isSome ∧
          y.places.Pairwise Location.NotAfter ∧
            ∀ place ∈ y.places,
              (placeFrom source bytes offset).NotAfter place := by
  induction cuts generalizing offset n openNames opens with
  | nil => exact ⟨⟨[], none⟩, rfl, rfl, .nil, nofun⟩
  | cons cut rest ih =>
      have hFault :
          ∀ fault,
            ∃ y : Yield,
              [.error (.markup (placeFrom source bytes offset) fault)] =
                  y.items ∧
                (openAfter? n opens (y.events.map Prod.snd)).isSome ∧
                  y.places.Pairwise Location.NotAfter ∧
                    ∀ place ∈ y.places,
                      (placeFrom source bytes offset).NotAfter place :=
        fun fault =>
          ⟨⟨[], some (placeFrom source bytes offset, fault)⟩, rfl, rfl,
            List.pairwise_singleton _ _,
            List.forall_mem_singleton.mpr (.refl _)⟩
      obtain ⟨fault | token, size⟩ := cut
      · exact hFault fault
      · cases hInterpret : interpret openNames token with
        | error fault =>
            rw [itemsFrom_of_error hInterpret]
            exact hFault fault
        | ok result =>
            obtain ⟨events, now⟩ := result
            rw [itemsFrom_of_ok hInterpret]
            obtain ⟨later, hLater, hNow⟩ :=
              (interpreted hInterpret).openAfter? hOpens n
            obtain ⟨y, hItems, hNested, hOrder, hBehind⟩ :=
              ih (offset + size) (n + events.length) hNow
            have hNext :
                ∀ place ∈ y.places,
                  (placeFrom source bytes offset).NotAfter place :=
              fun place hMem =>
                (notAfter_placeFrom source bytes
                  (Nat.le_add_right offset size)).trans
                    (hBehind place hMem)
            refine
              ⟨y.behind (placeFrom source bytes offset) events, ?_, ?_,
                ?_, ?_⟩
            · rw [hItems, Yield.items_behind]
            · rw [Yield.events_behind, openAfter?_append, hLater]
              exact hNested
            · rw [Yield.places_behind, List.pairwise_append]
              refine
                ⟨List.pairwise_replicate.mpr (.inr (.refl _)), hOrder,
                  ?_⟩
              intro place hHere
              rw [List.eq_of_mem_replicate hHere]
              exact hNext
            · intro place hMem
              rw [Yield.places_behind] at hMem
              rcases List.mem_append.mp hMem with hHere | hLater
              · rw [List.eq_of_mem_replicate hHere]
                exact .refl _
              · exact hNext place hLater

------------------------------------------------------------
-- Readers of parts
------------------------------------------------------------

/- A tag that is closed at once: a slash at the end, none in front. -/
def TagReading.ClosedAtOnce
    {source : String}
    {bytes : List UInt8}
    (t : TagReading source bytes) : Prop :=
  t.inside.head? ≠ some (byte '/') ∧
    t.inside.getLast? = some (byte '/')

/- Its two events come one right after the other. -/
theorem TagReading.ClosedAtOnce.items
    {source : String}
    {bytes : List UInt8}
    {t : TagReading source bytes}
    (hClosed : t.ClosedAtOnce) :
    ∃ name attributes,
      (readUtf8 source bytes)[t.front.length]? =
          some (.ok (t.place, .startTag name attributes)) ∧
        (readUtf8 source bytes)[t.front.length + 1]? =
          some (.ok (t.place, .endTag name)) := by
  have hEvents :
      ∃ name attributes,
        t.events = [.startTag name attributes, .endTag name] := by
    have hGiven := t.events_eq
    obtain ⟨hFront, hBack⟩ := hClosed
    generalize t.inside = inside, t.events = events at *
    cases hGiven with
    | opening notClosing notClosed read => exact absurd hBack notClosed
    | closedAtOnce notClosing read => exact ⟨_, _, rfl⟩
    | closing read => exact absurd rfl hFront
  obtain ⟨name, attributes, hEvents⟩ := hEvents
  refine ⟨name, attributes, ?_⟩
  rw [t.items_eq, hEvents]
  simp

/-
  What a reader answers, one time after the other: nested events and
  then at most one fault, with places that never go back. Every tag
  among the events is read from a tag of the bytes; one that is
  closed at once gives its start and its end right after each other
  with one place. Behind the first answer that is no event there is
  nothing.
-/
structure Answers
    (r : Reader)
    (y : Yield) : Prop where
  call_eq : ∀ n, r.call n = y.items[n]?
  nested : Nested (y.events.map Prod.snd)
  ordered : y.places.Pairwise Location.NotAfter
  tag :
    ∀ i place event,
      y.events[i]? = some (place, event) →
        event.tag? = some event →
          ∃ (t : TagReading r.source r.data) (k : Nat),
            i = t.front.length + k ∧
              t.events[k]? = some event ∧ t.place = place
  closedAtOnce :
    ∀ t : TagReading r.source r.data,
      t.ClosedAtOnce →
        ∃ name attributes,
          y.events[t.front.length]? =
              some (t.place, .startTag name attributes) ∧
            y.events[t.front.length + 1]? =
              some (t.place, .endTag name)
  ended :
    ∀ n,
      (∀ given, r.call n ≠ some (.ok given)) →
        ∀ m, n < m → r.call m = none

/-
  A reader of any bytes that can be brought to UTF-8 answers so; its
  answers are the items of the part.
-/
theorem Reader.ofBytes_answers
    {source : String}
    {bytes : List UInt8}
    {r : Reader}
    (hReader : ofBytes source bytes = .ok r) :
    ∃ y : Yield,
      readBytes source bytes = .ok y.items ∧ Answers r y := by
  unfold ofBytes at hReader
  split at hReader
  · rename_i data hData
    cases hReader
    obtain ⟨y, hItems, hNested, hOrder, -⟩ :=
      exists_yield source data 0 0 .nil
        (cuts (Encoding.dropMark data))
    rw [← readUtf8_eq] at hItems
    have hCall :
        ∀ n, (ofUtf8 source data).call n = y.items[n]? := by
      intro n
      rw [Reader.call_eq, rest_ofUtf8, hItems]
    refine
      ⟨y, ?_,
        { call_eq := hCall, nested := hNested, ordered := hOrder
          tag := ?_, closedAtOnce := ?_, ended := ?_ }⟩
    · unfold readBytes
      rw [hData]
      exact congrArg Except.ok hItems
    · intro i place event hEvent hTag
      rw [← Yield.getElem?_items, ← hItems] at hEvent
      obtain ⟨t, k, hIndex, hGiven, hPlace, -⟩ :=
        exists_tagReading hEvent hTag
      exact ⟨t, k, hIndex, hGiven, hPlace⟩
    · intro t hClosed
      obtain ⟨name, attributes, hStart, hEnd⟩ := hClosed.items
      refine ⟨name, attributes, ?_, ?_⟩
      · rw [← Yield.getElem?_items, ← hItems]
        exact hStart
      · rw [← Yield.getElem?_items, ← hItems]
        exact hEnd
    · intro n hEnd m hLater
      rw [hCall]
      refine Yield.getElem?_of_end (n := n) ?_ hLater
      intro given
      rw [← hCall]
      exact hEnd given
  · cases hReader

/- An element is open when an end tag of another name comes. -/
theorem Reader.ofBytes_mismatched :
    ofBytes "p" (bytesOf "<A><B/></C>") =
        .ok (ofUtf8 "p" (bytesOf "<A><B/></C>")) ∧
      ∃ y : Yield,
        Answers (ofUtf8 "p" (bytesOf "<A><B/></C>")) y ∧
          y.items =
            [.ok (⟨"p", 1, 1⟩, .startTag "A" []),
              .ok (⟨"p", 1, 4⟩, .startTag "B" []),
              .ok (⟨"p", 1, 4⟩, .endTag "B"),
              .error (.markup ⟨"p", 1, 8⟩ (.mismatchedEnd "A" "C"))] := by
  refine ⟨rfl, ?_⟩
  obtain ⟨y, hRead, hAnswers⟩ :=
    ofBytes_answers
      (show ofBytes "p" (bytesOf "<A><B/></C>") = .ok _ from rfl)
  refine ⟨y, hAnswers, ?_⟩
  have hItems :
      readBytes "p" (bytesOf "<A><B/></C>") =
        .ok
          [.ok (⟨"p", 1, 1⟩, .startTag "A" []),
            .ok (⟨"p", 1, 4⟩, .startTag "B" []),
            .ok (⟨"p", 1, 4⟩, .endTag "B"),
            .error (.markup ⟨"p", 1, 8⟩ (.mismatchedEnd "A" "C"))] := by
    decide +kernel
  exact Except.ok.inj (hRead.symm.trans hItems)

end FixedPage.Markup
