import FixedPage.Markup.Reader
import FixedPage.Proofs.Text.Utf8
import Mathlib.Data.List.Induction
import Mathlib.Order.Monotone.Basic

/-
  This file describes the places of events. The cursor of a reader
  only moves forward, so it can be replaced by one that starts anew
  for each event: the place of a token depends on the bytes of the
  part and on where the token starts, and on nothing that was read
  before. In a text, the place behind some characters counts their
  line feeds and the characters after the last of them.

  Main declarations:
    * `Cursor.after`
    * `Cursor.moveTo_after`
    * `Location.NotAfter`
    * `inkFrom`
    * `Location.behind`
    * `location_after_encode`
-/

namespace FixedPage

------------------------------------------------------------
-- Order of places
------------------------------------------------------------

/- A place that is not behind another, in the order of reading. -/
def Location.NotAfter
    (a b : Location) : Prop :=
  a.source = b.source ∧
    (a.line < b.line ∨ a.line = b.line ∧ a.column ≤ b.column)

namespace Location.NotAfter

theorem refl
    (a : Location) : NotAfter a a :=
  ⟨rfl, .inr ⟨rfl, Nat.le_refl _⟩⟩

theorem trans
    {a b c : Location}
    (hFirst : NotAfter a b)
    (hLater : NotAfter b c) : NotAfter a c := by
  obtain ⟨hSource, hFirst⟩ := hFirst
  obtain ⟨hSource', hLater⟩ := hLater
  refine ⟨hSource.trans hSource', ?_⟩
  omega

end Location.NotAfter

------------------------------------------------------------
-- Places by characters
------------------------------------------------------------

/-
  The place behind some characters of a part: one more than their
  line feeds, and one more than the characters after the last of
  them.
-/
def Location.behind
    (source : String)
    (lead : List Char) : Location :=
  ⟨source, 1 + lead.count '\n',
    1 + (lead.reverse.takeWhile fun c => c != '\n').length⟩

namespace Location

/- The place behind one character more. -/
theorem behind_concat
    (source : String)
    (lead : List Char)
    (ch : Char) :
    behind source (lead ++ [ch]) =
      if ch = '\n' then ⟨source, (behind source lead).line + 1, 1⟩
      else
        ⟨source, (behind source lead).line,
          (behind source lead).column + 1⟩ := by
  unfold behind
  rw [List.count_append, List.reverse_append, List.reverse_singleton,
    List.singleton_append]
  by_cases hFeed : ch = '\n'
  · subst hFeed
    rw [if_pos rfl, List.count_singleton_self,
      List.takeWhile_cons_of_neg (by decide)]
    rfl
  · rw [if_neg hFeed, List.count_singleton,
      if_neg (by simpa using hFeed),
      List.takeWhile_cons_of_pos (by simpa using hFeed)]
    rfl

end Location

namespace Markup

open Text

------------------------------------------------------------
-- Cursors
------------------------------------------------------------

namespace Cursor

/- A cursor at the end stays there. -/
theorem forward_of_rest
    {c : Cursor}
    (hRest : c.rest = [])
    (n : Nat) :
    forward n c = c := by
  cases n with
  | zero => rfl
  | succ n => rw [forward, hRest]

/- A cursor moves over bytes one part after the other. -/
theorem forward_add
    (m n : Nat)
    (c : Cursor) :
    forward (m + n) c = forward n (forward m c) := by
  induction m generalizing c with
  | zero => rw [Nat.zero_add, forward]
  | succ m ih =>
      rw [Nat.succ_add, forward]
      cases hRest : c.rest with
      | nil => rw [forward_of_rest hRest, forward_of_rest hRest]
      | cons b rest =>
          dsimp only
          rw [ih, forward, hRest]

/- One byte over which a cursor moves. -/
theorem pass_rest
    (b : UInt8)
    (rest : List UInt8)
    (c : Cursor) :
    (c.pass b rest).rest = rest ∧
      (c.pass b rest).offset = c.offset + 1 := by
  unfold pass
  split_ifs <;> exact ⟨rfl, rfl⟩

/- What is left after some bytes, and how many they were. -/
theorem forward_rest
    (n : Nat)
    (c : Cursor) :
    (forward n c).rest = c.rest.drop n ∧
      (forward n c).offset = c.offset + min n c.rest.length := by
  induction n generalizing c with
  | zero => simp [forward]
  | succ n ih =>
      rw [forward]
      cases hRest : c.rest with
      | nil => simp [hRest]
      | cons b rest =>
          dsimp only
          rw [(ih _).1, (ih _).2, (pass_rest b rest c).1,
            (pass_rest b rest c).2, List.length_cons,
            List.drop_succ_cons]
          exact ⟨rfl, by omega⟩

/- The cursor after some bytes of a part. -/
def after
    (bytes : List UInt8)
    (n : Nat) : Cursor :=
  forward n (start bytes)

/- A cursor that moves forward has passed all bytes up to there. -/
theorem moveTo_after
    (bytes : List UInt8)
    {m n : Nat}
    (hForward : m ≤ n) :
    (after bytes m).moveTo n = after bytes n := by
  obtain ⟨d, rfl⟩ := Nat.exists_eq_add_of_le hForward
  have hMoved := forward_rest m (start bytes)
  unfold moveTo after
  rw [forward_add, hMoved.2]
  rcases Nat.le_total m bytes.length with hInside | hEnd
  · congr 1
    change m + d - (0 + min m bytes.length) = d
    omega
  · have hRest : (forward m (start bytes)).rest = [] :=
      hMoved.1.trans (List.drop_of_length_le hEnd)
    rw [forward_of_rest hRest, forward_of_rest hRest]

/- A cursor never moves back. -/
theorem notAfter_forward
    (source : String)
    (n : Nat)
    (c : Cursor) :
    (c.location source).NotAfter ((forward n c).location source) := by
  induction n generalizing c with
  | zero => exact .refl _
  | succ n ih =>
      rw [forward]
      cases c.rest with
      | nil => exact .refl _
      | cons b rest =>
          have hByte :
              (c.location source).NotAfter
                ((c.pass b rest).location source) := by
            refine ⟨rfl, ?_⟩
            unfold pass
            split_ifs
            · exact .inl (Nat.lt_succ_self _)
            · exact .inr ⟨rfl, Nat.le_refl _⟩
            · exact .inr ⟨rfl, Nat.le_succ _⟩
          exact hByte.trans (ih _)

/- Places are in the order of their bytes. -/
theorem notAfter_after
    (source : String)
    (bytes : List UInt8)
    {m n : Nat}
    (hForward : m ≤ n) :
    ((after bytes m).location source).NotAfter
      ((after bytes n).location source) := by
  obtain ⟨d, rfl⟩ := Nat.exists_eq_add_of_le hForward
  unfold after
  rw [forward_add]
  exact notAfter_forward source d _

end Cursor

------------------------------------------------------------
-- Where tokens start
------------------------------------------------------------

/- Where a token is taken to start whose bytes start at an offset. -/
def inkFrom
    (bytes : List UInt8)
    (offset : Nat) : Nat :=
  offset + leadingBlanks (bytes.drop offset)

/- One byte further on, a token starts no earlier. -/
theorem inkFrom_le_succ
    (bytes : List UInt8)
    (offset : Nat) :
    inkFrom bytes offset ≤ inkFrom bytes (offset + 1) := by
  unfold inkFrom
  rw [← List.drop_drop]
  cases bytes.drop offset with
  | nil => exact Nat.le_succ _
  | cons b rest =>
      rw [List.drop_succ_cons, List.drop_zero]
      by_cases hBlank : isBlankByte b = true
      · unfold leadingBlanks
        rw [List.takeWhile_cons_of_pos hBlank, List.length_cons,
          List.length_cons]
        simp only [beq_iff_eq, Nat.add_right_cancel_iff]
        split_ifs <;> omega
      · have hNone : leadingBlanks (b :: rest) = 0 := by
          unfold leadingBlanks
          rw [List.takeWhile_cons_of_neg hBlank]
          rfl
        omega

/- Tokens are taken to start in the order of their bytes. -/
theorem inkFrom_mono
    (bytes : List UInt8) :
    Monotone (inkFrom bytes) :=
  monotone_nat_of_le_succ (inkFrom_le_succ bytes)

/- The place of a token whose bytes start at an offset. -/
def placeFrom
    (source : String)
    (bytes : List UInt8)
    (offset : Nat) : Location :=
  (Cursor.after bytes (inkFrom bytes offset)).location source

/- Places are in the order of their tokens. -/
theorem notAfter_placeFrom
    (source : String)
    (bytes : List UInt8)
    {m n : Nat}
    (hForward : m ≤ n) :
    (placeFrom source bytes m).NotAfter (placeFrom source bytes n) :=
  Cursor.notAfter_after source bytes (inkFrom_mono bytes hForward)

/-
  The events of some tokens, each with the place that its own
  offset has.
-/
def itemsFrom
    (source : String)
    (bytes : List UInt8)
    (offset : Nat)
    (openNames : List (List UInt8)) :
    List Cut → List Item
| [] => []
| cut :: rest =>
    let place := placeFrom source bytes offset
    match cut.token with
    | .error fault => [.error (.markup place fault)]
    | .ok token =>
        match interpret openNames token with
        | .error fault => [.error (.markup place fault)]
        | .ok (events, openNames) =>
            events.map (fun event => .ok (place, event))
              ++ itemsFrom source bytes (offset + cut.size) openNames
                  rest

variable {openNames now : List (List UInt8)} {token : Token}

/- A token that cannot be read ends the items. -/
theorem itemsFrom_of_error
    {fault : Fault}
    (hFault : interpret openNames token = .error fault)
    (source : String)
    (bytes : List UInt8)
    (offset size : Nat)
    (rest : List Cut) :
    itemsFrom source bytes offset openNames
        (⟨.ok token, size⟩ :: rest) =
      [.error (.markup (placeFrom source bytes offset) fault)] := by
  rw [itemsFrom]
  dsimp only
  rw [hFault]

/- The events of a token are followed by those of the others. -/
theorem itemsFrom_of_ok
    {events : List Event}
    (hOk : interpret openNames token = .ok (events, now))
    (source : String)
    (bytes : List UInt8)
    (offset size : Nat)
    (rest : List Cut) :
    itemsFrom source bytes offset openNames
        (⟨.ok token, size⟩ :: rest) =
      events.map (fun event =>
          .ok (placeFrom source bytes offset, event))
        ++ itemsFrom source bytes (offset + size) now rest := by
  rw [itemsFrom]
  dsimp only
  rw [hOk]

/- A cursor that only moves forward finds the same places. -/
theorem items_eq
    (source : String)
    (bytes : List UInt8)
    {offset passed : Nat}
    (hPassed : passed ≤ inkFrom bytes offset)
    (openNames : List (List UInt8))
    (cuts : List Cut) :
    items source offset (bytes.drop offset) (.after bytes passed)
        openNames cuts =
      itemsFrom source bytes offset openNames cuts := by
  induction cuts generalizing offset passed openNames with
  | nil => rfl
  | cons cut rest ih =>
      have hMoved := Cursor.moveTo_after bytes hPassed
      unfold inkFrom at hMoved
      unfold items itemsFrom
      rw [hMoved, List.drop_drop]
      cases cut.token with
      | error fault => rfl
      | ok token =>
          dsimp only
          cases interpret openNames token with
          | error fault => rfl
          | ok result =>
              dsimp only
              have hNext :=
                inkFrom_mono bytes (Nat.le_add_right offset cut.size)
              unfold inkFrom at hNext
              rw [ih hNext]
              rfl

/- The items of bytes, with the place of each by its own offset. -/
theorem readUtf8_eq
    (source : String)
    (bytes : List UInt8) :
    readUtf8 source bytes =
      itemsFrom source bytes 0 [] (cuts (Encoding.dropMark bytes)) :=
  items_eq source bytes (Nat.zero_le _) [] _

------------------------------------------------------------
-- Places in a text
------------------------------------------------------------

namespace Cursor

/- The place behind one byte. -/
theorem location_pass
    (source : String)
    (b : UInt8)
    (rest : List UInt8)
    (c : Cursor) :
    (c.pass b rest).location source =
      if b = 0x0A then ⟨source, c.line + 1, 1⟩
      else if Utf8.isContinuation b = true then c.location source
      else ⟨source, c.line, c.column + 1⟩ := by
  unfold pass Utf8.isContinuation
  simp only [beq_iff_eq]
  split_ifs <;> rfl

/- Bytes that continue a character do not change the place. -/
theorem location_of_continuation
    {tail more : List UInt8}
    {c : Cursor}
    (hRest : c.rest = tail ++ more)
    (hTail : ∀ b ∈ tail, Utf8.isContinuation b = true)
    (source : String) :
    (forward tail.length c).location source = c.location source := by
  induction tail generalizing c with
  | nil => rfl
  | cons b tail ih =>
      have hByte := hTail b (.head _)
      have hNoFeed : b ≠ 0x0A := by
        rintro rfl
        cases hByte
      rw [List.length_cons, forward, hRest, List.cons_append]
      dsimp only
      rw [ih (pass_rest _ _ _).1 fun d hMem => hTail d (.tail _ hMem),
        location_pass, if_neg hNoFeed, if_pos hByte]

/- A character moves to the next column, a line feed to a new line. -/
theorem location_of_char
    {ch : Char}
    {more : List UInt8}
    {c : Cursor}
    (hRest : c.rest = String.utf8EncodeChar ch ++ more)
    (source : String) :
    (forward (String.utf8EncodeChar ch).length c).location source =
      if ch = '\n' then ⟨source, c.line + 1, 1⟩
      else ⟨source, c.line, c.column + 1⟩ := by
  obtain ⟨b, tail, hBytes, hLead, hTail, hFeed⟩ := Utf8.exists_lead ch
  rw [hBytes, List.cons_append] at hRest
  rw [hBytes, List.length_cons, forward, hRest]
  dsimp only
  rw [location_of_continuation (pass_rest _ _ _).1 hTail source,
    location_pass, hLead]
  simp only [hFeed, Bool.false_eq_true, if_false]

/- The cursor behind some characters is where they end. -/
theorem location_after_encode
    (source : String)
    (lead : List Char)
    (more : List UInt8) :
    (after (Utf8.encode lead ++ more)
        (Utf8.encode lead).length).location source =
      .behind source lead := by
  induction lead using List.reverseRecOn generalizing more with
  | nil => rfl
  | append_singleton lead ch ih =>
      have hPlace := ih (String.utf8EncodeChar ch ++ more)
      have hRest :
          (after (Utf8.encode lead ++ (String.utf8EncodeChar ch ++ more))
              (Utf8.encode lead).length).rest =
            String.utf8EncodeChar ch ++ more := by
        unfold after
        rw [(forward_rest _ _).1]
        exact List.drop_left
      have hChar :
          Utf8.encode (lead ++ [ch]) =
            Utf8.encode lead ++ String.utf8EncodeChar ch := by
        simp
      rw [hChar, List.append_assoc, List.length_append, after,
        forward_add]
      rw [← after, location_of_char hRest, Location.behind_concat,
        ← hPlace]
      rfl

end Cursor

end Markup

end FixedPage
