import FixedPage.Proofs.Markup.Cutting
import FixedPage.Proofs.Markup.Elements
import FixedPage.Proofs.Markup.Encoding
import FixedPage.Proofs.Markup.Names
import FixedPage.Proofs.Markup.Places
import FixedPage.Proofs.Markup.Written
import Mathlib.Data.List.TakeWhile

/-
  This file shows which tag of a part an event comes from. The bytes
  of the part are those in front of the tag, the tag between its
  brackets and the bytes behind it; the events in front of the tag
  are those that the bytes in front of it give alone. In a text the
  event has the place of the bracket that opens its tag.

  Main declarations:
    * `TagEvents`
    * `TagReading`
    * `exists_tagReading`
    * `readText_tag_place`
-/

namespace FixedPage.Markup

open Text

------------------------------------------------------------
-- Tokens of tags
------------------------------------------------------------

variable {token : Token} {size : Nat} {rest bytes : List UInt8}

/- No declaration is a tag. -/
theorem not_isTag_of_cutDeclaration
    (hCut : cutDeclaration rest = ⟨.ok token, size⟩) :
    ¬ token.IsTag := by
  unfold cutDeclaration Cut.fault at hCut
  split_ifs at hCut
  · split at hCut
    · cases hCut
      exact not_false
    · cases hCut
  · cases hCut
  · split at hCut
    · cases hCut
      exact not_false
    · cases hCut
  · cases hCut
  · split at hCut
    · cases hCut
    · split_ifs at hCut
      · cases hCut
      · cases hCut
        exact not_false
      · cases hCut
  · cases hCut

/- No reference is a tag. -/
theorem not_isTag_of_cutReference
    (hCut : cutReference rest = ⟨.ok token, size⟩) :
    ¬ token.IsTag := by
  unfold cutReference Cut.fault at hCut
  dsimp only at hCut
  split at hCut
  · split_ifs at hCut
    · cases hCut
      exact not_false
    · cases hCut
  · cases hCut

/- Markup that is a tag has its content up to the closing bracket. -/
theorem exists_of_cutMarkup
    (hCut : cutMarkup rest = ⟨.ok token, size⟩)
    (hTag : token.IsTag) :
    ∃ inside after,
      rest = inside ++ byte '>' :: after ∧
        tagContent? none rest = some inside ∧
          token = tokenOf inside := by
  cases rest with
  | nil => cases hCut
  | cons b more =>
      by_cases hBang : b = byte '!'
      · subst hBang
        change cutDeclaration more = _ at hCut
        exact absurd hTag (not_isTag_of_cutDeclaration hCut)
      · by_cases hMark : b = byte '?'
        · subst hMark
          obtain ⟨rfl, -⟩ :=
            cutInstruction_take (n := size) hCut (by omega)
          exact hTag.elim
        · rw [cutMarkup_tag hBang hMark] at hCut
          split at hCut
          · cases hCut
          · rename_i inside hInside
            obtain ⟨after, hBytes⟩ := eq_of_tagContent? hInside
            cases hCut
            exact ⟨inside, after, hBytes, hInside, rfl⟩

/- A tag that is cut off starts behind the spaces in front of it. -/
theorem exists_of_cut?_tag
    (hCut : cut? bytes = some ⟨.ok token, size⟩)
    (hTag : token.IsTag) :
    ∃ inside after,
      bytes.drop (leadingSpaces bytes) =
          byte '<' :: (inside ++ byte '>' :: after) ∧
        tagContent? none (inside ++ byte '>' :: after) = some inside ∧
          token = tokenOf inside := by
  obtain ⟨b, rest, length, hDrop, hFirst, -⟩ := exists_of_cut? hCut
  unfold cutFirst at hFirst
  split_ifs at hFirst with hOpen hReference
  · obtain ⟨inside, after, rfl, hInside, hToken⟩ :=
      exists_of_cutMarkup hFirst hTag
    rw [eq_of_beq hOpen] at hDrop
    exact ⟨inside, after, hDrop, hInside, hToken⟩
  · exact absurd hTag (not_isTag_of_cutReference hFirst)
  · cases hFirst
    exact hTag.elim

------------------------------------------------------------
-- Events of tags
------------------------------------------------------------

/-
  The events of a tag by what stands between its brackets. A tag
  that is closed at once has a slash at the end and gives two
  events; an end tag has a slash in front.
-/
inductive TagEvents : List UInt8 → List Event → Prop
  | opening
      {inside : List UInt8}
      {name : String}
      {attributes : List Attribute}
      (notClosing : inside.head? ≠ some (byte '/'))
      (notClosed : inside.getLast? ≠ some (byte '/'))
      (read : Tag.read inside = .ok (.startTag name attributes)) :
      TagEvents inside [.startTag name attributes]
  | closedAtOnce
      {content : List UInt8}
      {name : String}
      {attributes : List Attribute}
      (notClosing : (content ++ [byte '/']).head? ≠ some (byte '/'))
      (read : Tag.read content = .ok (.startTag name attributes)) :
      TagEvents (content ++ [byte '/'])
        [.startTag name attributes, .endTag name]
  | closing
      {content : List UInt8}
      {name : String}
      (read : decodeText (endName content) = .ok name) :
      TagEvents (byte '/' :: content) [.endTag name]

variable {openNames now : List (List UInt8)} {events : List Event}

/- Only a tag gives an event that is one. -/
theorem Interpreted.isTag
    {event : Event}
    (hRead : Interpreted openNames token events now)
    (hMem : event ∈ events)
    (hTag : event.tag? = some event) :
    token.IsTag := by
  cases hRead with
  | opening => trivial
  | closedAtOnce => trivial
  | closing => trivial
  | text notTag content =>
      cases List.mem_singleton.mp hMem
      cases hTag
  | skipped => cases hMem

/- A tag gives the events of what stands between its brackets. -/
theorem Interpreted.tagEvents
    {inside : List UInt8}
    (hRead : Interpreted openNames (tokenOf inside) events now) :
    TagEvents inside events := by
  unfold tokenOf at hRead
  split_ifs at hRead with hClosing hClosed
  · obtain ⟨content, rfl⟩ := List.head?_eq_some_iff.mp hClosing
    cases hRead with
    | closing isOpen named => exact .closing named
    | text notTag content => exact (notTag trivial).elim
  · obtain ⟨content, rfl⟩ := List.getLast?_eq_some_iff.mp hClosed
    rw [List.dropLast_concat] at hRead
    cases hRead with
    | closedAtOnce read => exact .closedAtOnce hClosing read
    | text notTag content => exact (notTag trivial).elim
  · cases hRead with
    | opening read named => exact .opening hClosing hClosed read
    | text notTag content => exact (notTag trivial).elim

------------------------------------------------------------
-- Cuts among others
------------------------------------------------------------

/-
  How a cut among others is read. The items of the cuts in front
  of it hold no fault; their events are the same wherever these
  cuts are placed.
-/
structure CutReading
    (source : String)
    (bytes : List UInt8)
    (offset : Nat)
    (openNames : List (List UInt8))
    (cuts : List Cut) where
  front : List Cut
  back : List Cut
  token : Token
  size : Nat
  before : List (List UInt8)
  now : List (List UInt8)
  events : List Event
  cuts_eq : cuts = front ++ ⟨.ok token, size⟩ :: back
  read : Interpreted before token events now
  items_eq :
    itemsFrom source bytes offset openNames cuts =
      itemsFrom source bytes offset openNames front
        ++ events.map (fun event =>
            .ok (placeFrom source bytes (offset + extent front), event))
        ++ itemsFrom source bytes (offset + extent front + size) now
            back
  front_eq :
    ∀ other,
      (itemsFrom source other offset openNames front).map Item.event =
        (itemsFrom source bytes offset openNames front).map Item.event

/- An event comes from one of the cuts. -/
theorem exists_cutReading
    {source : String}
    {offset i : Nat}
    {cuts : List Cut}
    {place : Location}
    {event : Event}
    (hItem :
      (itemsFrom source bytes offset openNames cuts)[i]? =
        some (.ok (place, event))) :
    ∃ (r : CutReading source bytes offset openNames cuts) (k : Nat),
      i = (itemsFrom source bytes offset openNames r.front).length + k ∧
        r.events[k]? = some event ∧
          place = placeFrom source bytes (offset + extent r.front) := by
  induction cuts generalizing offset openNames i with
  | nil => cases hItem
  | cons cut rest ih =>
      obtain ⟨fault | token, size⟩ := cut
      · cases i <;> cases hItem
      · cases hInterpret : interpret openNames token with
        | error fault =>
            rw [itemsFrom_of_error hInterpret] at hItem
            cases i <;> cases hItem
        | ok result =>
            obtain ⟨events, now⟩ := result
            rw [itemsFrom_of_ok hInterpret] at hItem
            rcases Nat.lt_or_ge i events.length with hHere | hLater
            · -- The event is one of the first cut.
              rw [List.getElem?_append_left (by simpa using hHere),
                List.getElem?_map, Option.map_eq_some_iff] at hItem
              obtain ⟨found, hFound, hIs⟩ := hItem
              cases hIs
              exact
                ⟨{ front := [], back := rest, token := token,
                   size := size, before := openNames, now := now,
                   events := events, cuts_eq := rfl,
                   read := interpreted hInterpret,
                   items_eq := itemsFrom_of_ok hInterpret _ _ _ _ _,
                   front_eq := fun _ => rfl },
                  i, (Nat.zero_add i).symm, hFound, rfl⟩
            · rw [List.getElem?_append_right (by simpa using hLater),
                List.length_map] at hItem
              obtain ⟨r, k, hIndex, hEvent, hPlace⟩ := ih hItem
              have hOffset :
                  offset + extent (⟨.ok token, size⟩ :: r.front) =
                    offset + size + extent r.front := by
                rw [extent_cons, Nat.add_assoc]
              refine
                ⟨{ front := ⟨.ok token, size⟩ :: r.front
                   back := r.back, token := r.token, size := r.size
                   before := r.before, now := r.now
                   events := r.events
                   cuts_eq := congrArg (_ :: ·) r.cuts_eq
                   read := r.read
                   items_eq := ?_
                   front_eq := ?_ },
                  k, ?_, hEvent, ?_⟩
              · rw [itemsFrom_of_ok hInterpret,
                  itemsFrom_of_ok hInterpret, r.items_eq, hOffset]
                simp only [List.append_assoc]
              · intro other
                rw [itemsFrom_of_ok hInterpret,
                  itemsFrom_of_ok hInterpret, List.map_append,
                  List.map_append, r.front_eq other, List.map_map,
                  List.map_map]
                rfl
              · rw [itemsFrom_of_ok hInterpret, List.length_append,
                  List.length_map]
                omega
              · rw [hOffset]
                exact hPlace

------------------------------------------------------------
-- Tags of a part
------------------------------------------------------------

/- A byte order mark is only dropped in front. -/
theorem exists_mark
    (bytes : List UInt8) :
    ∃ mark,
      bytes = mark ++ Encoding.dropMark bytes ∧
        ∀ n,
          Encoding.dropMark
              (mark ++ (Encoding.dropMark bytes).take n) =
            (Encoding.dropMark bytes).take n := by
  unfold Encoding.dropMark
  split
  · exact ⟨[0xEF, 0xBB, 0xBF], rfl, fun _ => rfl⟩
  · rename_i hNoMark
    refine ⟨[], rfl, fun n => ?_⟩
    split
    · rename_i rest hMark
      have hBytes := List.take_append_drop n bytes
      rw [List.nil_append] at hMark
      rw [hMark] at hBytes
      exact (hNoMark _ hBytes.symm).elim
    · rfl

/-
  How a tag of a part is read: the bytes in front of its opening
  bracket, those between its brackets and those behind it; its
  place and its events; and the items in front of these and behind
  them. The tag ends at the first closing bracket outside quotes.
  What stands in front of it is read alike without it.
-/
structure TagReading
    (source : String)
    (bytes : List UInt8) where
  before : List UInt8
  inside : List UInt8
  behind : List UInt8
  place : Location
  events : List Event
  front : List Item
  back : List Item
  bytes_eq :
    bytes = before ++ byte '<' :: (inside ++ byte '>' :: behind)
  inside_eq :
    tagContent? none (inside ++ byte '>' :: behind) = some inside
  events_eq : TagEvents inside events
  items_eq :
    readUtf8 source bytes =
      front ++ events.map (fun event => .ok (place, event)) ++ back
  front_eq :
    (readUtf8 source before).map Item.event = front.map Item.event

/- Nothing but spaces is skipped in front of a tag. -/
theorem leadingBlanks_of_tag
    (hDrop : bytes.drop (leadingSpaces bytes) = byte '<' :: rest) :
    leadingBlanks bytes = leadingSpaces bytes := by
  have hFront :
      bytes.takeWhile isSpace = bytes.take (leadingSpaces bytes) :=
    List.prefix_iff_eq_take.mp (List.takeWhile_prefix isSpace)
  have hBytes :
      bytes = bytes.takeWhile isSpace ++ byte '<' :: rest := by
    rw [hFront, ← hDrop, List.take_append_drop]
  have hSpaces : ∀ b ∈ bytes.takeWhile isSpace, isBlankByte b = true := by
    intro b hMem
    have hSpace := List.mem_takeWhile_imp hMem
    unfold isSpace at hSpace
    unfold isBlankByte
    grind
  unfold leadingSpaces
  generalize bytes.takeWhile isSpace = spaces at hBytes hSpaces ⊢
  subst hBytes
  unfold leadingBlanks
  rw [List.takeWhile_append_of_pos hSpaces,
    List.takeWhile_cons_of_neg (by decide), List.append_nil]
  simp

/-
  A tag among the items is read from a tag of the bytes. If these
  have no byte order mark, its place is that of its opening bracket.
-/
theorem exists_tagReading
    {source : String}
    {i : Nat}
    {place : Location}
    {event : Event}
    (hItem : (readUtf8 source bytes)[i]? = some (.ok (place, event)))
    (hTag : event.tag? = some event) :
    ∃ (t : TagReading source bytes) (k : Nat),
      i = t.front.length + k ∧
        t.events[k]? = some event ∧ t.place = place ∧
          (Encoding.dropMark bytes = bytes →
            place =
              (Cursor.after bytes t.before.length).location source) := by
  rw [readUtf8_eq] at hItem
  obtain ⟨r, k, hIndex, hEvent, hPlace⟩ := exists_cutReading hItem
  have hCut := cut?_of_cuts r.cuts_eq
  obtain ⟨inside, behind, hDrop, hInside, hToken⟩ :=
    exists_of_cut?_tag hCut
      (r.read.isTag (List.mem_of_getElem? hEvent) hTag)
  have hBlanks := leadingBlanks_of_tag hDrop
  have hCuts := cuts_take r.cuts_eq (Nat.le_refl _)
  obtain ⟨mark, hMark, hUnmarked⟩ := exists_mark bytes
  generalize hInk : Encoding.dropMark bytes = ink at *
  generalize hStart :
    extent r.front + leadingSpaces (ink.drop (extent r.front)) = start
      at *
  rw [List.drop_drop, hStart] at hDrop
  have hSplit :
      ink = ink.take start ++ byte '<' :: (inside ++ byte '>' :: behind) := by
    rw [← hDrop, List.take_append_drop]
  have hStarts :
      ink = bytes →
        place =
          (Cursor.after bytes (mark ++ ink.take start).length).location
            source := by
    rintro rfl
    have hNone : mark = [] := List.self_eq_append_left.mp hMark
    have hInside := congrArg List.length hDrop
    rw [List.length_drop, List.length_cons] at hInside
    have hInk :
        inkFrom ink (extent r.front) = (mark ++ ink.take start).length := by
      rw [inkFrom, hBlanks, hStart, hNone, List.nil_append,
        List.length_take_of_le (by omega)]
    rw [hPlace, placeFrom, Nat.zero_add, hInk]
  refine
    ⟨{ before := mark ++ ink.take start, inside := inside
       behind := behind, place := place, events := r.events
       front := itemsFrom source bytes 0 [] r.front
       back := _
       bytes_eq := by rw [List.append_assoc, ← hSplit, ← hMark]
       inside_eq := hInside
       events_eq := (hToken ▸ r.read).tagEvents
       items_eq := by rw [readUtf8_eq, hInk, r.items_eq, hPlace]
       front_eq := ?_ },
      k, hIndex, hEvent, rfl, hStarts⟩
  rw [readUtf8_eq, hUnmarked, hCuts, r.front_eq]

------------------------------------------------------------
-- Tags of a text
------------------------------------------------------------

/- A text without a byte order mark keeps all its bytes. -/
theorem dropMark_encode
    {cs : List Char}
    (hMark : cs.head? ≠ some '\uFEFF') :
    Encoding.dropMark (Utf8.encode cs) = Utf8.encode cs := by
  unfold Encoding.dropMark
  split
  · rename_i rest hBytes
    exact absurd (Encoding.head_of_markUtf8 hBytes) hMark
  · rfl

/-
  In a text without a byte order mark, every tag has the place of
  the bracket that opens it: its line is one more than the number of
  line feeds in front of the bracket, its column one more than the
  number of characters after the last of these. The two events of a
  tag that is closed at once have one place.
-/
theorem readText_tag_place
    {source text : String}
    (hMark : text.toList.head? ≠ some '\uFEFF') :
    readBytes source (Utf8.encode text.toList) =
        .ok (readText source text) ∧
      ∀ i place event,
        (readText source text)[i]? = some (.ok (place, event)) →
          event.tag? = some event →
            ∃ (t : TagReading source (Utf8.encode text.toList))
              (k : Nat) (lead rest : List Char),
              i = t.front.length + k ∧
                t.events[k]? = some event ∧ t.place = place ∧
                  text.toList = lead ++ '<' :: rest ∧
                    t.before = Utf8.encode lead ∧
                      place = .behind source lead := by
  refine ⟨((readBytes_encodings source).1 text hMark).1, ?_⟩
  intro i place event hItem hTag
  obtain ⟨t, k, hIndex, hEvent, hPlace, hStart⟩ :=
    exists_tagReading hItem hTag
  obtain ⟨lead, rest, hText, hBefore, -⟩ :=
    Utf8.exists_of_encode_eq (c := '<') (by decide) t.bytes_eq
  refine
    ⟨t, k, lead, rest, hIndex, hEvent, hPlace, hText, hBefore.symm, ?_⟩
  rw [hStart (dropMark_encode hMark), ← hBefore, hText,
    Utf8.encode_append, Cursor.location_after_encode]

/- A tag behind a line feed, an accent and a comment with a tag. -/
theorem readText_comment_place :
    ∃ (t :
        TagReading "p"
          (Utf8.encode "<a>é\n <!--<b>--><b/></a>".toList))
      (k : Nat) (lead rest : List Char),
      3 = t.front.length + k ∧
        t.events[k]? = some (.endTag "b") ∧ t.place = ⟨"p", 2, 12⟩ ∧
          "<a>é\n <!--<b>--><b/></a>".toList = lead ++ '<' :: rest ∧
            t.before = Utf8.encode lead ∧
              ⟨"p", 2, 12⟩ = Location.behind "p" lead :=
  (readText_tag_place (by decide)).2 3 ⟨"p", 2, 12⟩ (.endTag "b")
    (by decide +kernel) rfl

end FixedPage.Markup
