import FixedPage.Markup.Reader
import FixedPage.Proofs.Text.Utf8
import FixedPage.Text.Utf16

/-
  This file shows that one text is read alike in each encoding of
  its part: the bytes without a mark are never taken for marked
  ones, and those behind a mark of UTF-16 are brought back to the
  same UTF-8. A surrogate without its other half is all that stands
  in the way of reading UTF-16.

  Characters are written as UTF-16 in either order of bytes and are
  decoded again; the units that have no reading at all are described
  by the place of one of them.

  Main declarations:
    * `Utf16.encode`
    * `Utf16.bytes`
    * `Utf16.units_bytes`
    * `Utf16.decode?_encode`
    * `Utf16.HasUnpaired`
    * `Utf16.decode?_eq_none_iff`
    * `Encoding.mark`
    * `Encoding.normalize?_encode`
    * `Encoding.normalize?_mark`
    * `readBytes_encodings`
-/

namespace FixedPage.Text.Utf16

------------------------------------------------------------
-- Code Units Of Characters
------------------------------------------------------------

/-
  The code units of a character: a code of more than sixteen bits
  is split between a high and a low surrogate.
-/
def encodeChar
    (c : Char) : List Nat :=
  if c.toNat < 0x10000 then [c.toNat]
  else
    [0xD800 + (c.toNat - 0x10000) / 1024,
      0xDC00 + (c.toNat - 0x10000) % 1024]

/- The code units of characters. -/
def encode
    (cs : List Char) : List Nat :=
  cs.flatMap encodeChar

@[simp] theorem encode_nil :
    encode [] = [] :=
  rfl

@[simp] theorem encode_cons
    (c : Char)
    (cs : List Char) :
    encode (c :: cs) = encodeChar c ++ encode cs :=
  rfl

/- A unit starts a pair if it is in the first range. -/
theorem isHigh_iff
    (unit : Nat) :
    isHigh unit = true ↔ 0xD800 ≤ unit ∧ unit < 0xDC00 := by
  simp only [isHigh, Bool.and_eq_true, decide_eq_true_eq]

/- A unit ends a pair if it is in the second range. -/
theorem isLow_iff
    (unit : Nat) :
    isLow unit = true ↔ 0xDC00 ≤ unit ∧ unit < 0xE000 := by
  simp only [isLow, Bool.and_eq_true, decide_eq_true_eq]

/- No unit starts a pair and ends one. -/
theorem isLow_of_isHigh
    {unit : Nat}
    (hHigh : isHigh unit = true) :
    isLow unit = false := by
  rw [isHigh_iff] at hHigh
  rw [← Bool.not_eq_true, isLow_iff]
  omega

/- A character of one unit is decoded. -/
theorem decode?_single
    {unit : Nat}
    (hHigh : isHigh unit = false)
    (hLow : isLow unit = false)
    (us : List Nat) :
    decode? (unit :: us) = (decode? us).map (Char.ofNat unit :: ·) := by
  rw [decode?.eq_def]
  simp only [hHigh, hLow, Bool.false_eq_true, if_false]

/- A character of two units is decoded. -/
theorem decode?_pair
    {high low : Nat}
    (hHigh : isHigh high = true)
    (hLow : isLow low = true)
    (us : List Nat) :
    decode? (high :: low :: us) =
      (decode? us).map
        (Char.ofNat
          (0x10000 + (high - 0xD800) * 1024 + (low - 0xDC00)) :: ·) := by
  rw [decode?.eq_def]
  simp only [hHigh, hLow, if_true]

/- The units of a character are decoded to it. -/
theorem decode?_encodeChar
    (c : Char)
    (us : List Nat) :
    decode? (encodeChar c ++ us) = (decode? us).map (c :: ·) := by
  have hValid :
      c.toNat < 0xD800 ∨ 0xDFFF < c.toNat ∧ c.toNat < 0x110000 :=
    c.valid
  have hCode : ∀ n, n = c.toNat → Char.ofNat n = c := by
    rintro n rfl
    exact Char.ofNat_toNat c
  unfold encodeChar
  split
  · have hHigh : isHigh c.toNat = false := by
      rw [← Bool.not_eq_true, isHigh_iff]
      omega
    have hLow : isLow c.toNat = false := by
      rw [← Bool.not_eq_true, isLow_iff]
      omega
    rw [List.singleton_append, decode?_single hHigh hLow,
      hCode _ rfl]
  · have hHigh :
        isHigh (0xD800 + (c.toNat - 0x10000) / 1024) = true := by
      rw [isHigh_iff]
      omega
    have hLow :
        isLow (0xDC00 + (c.toNat - 0x10000) % 1024) = true := by
      rw [isLow_iff]
      omega
    rw [List.cons_append, List.singleton_append,
      decode?_pair hHigh hLow, hCode _ (by omega)]

/- Encoded characters are decoded. -/
theorem decode?_encode
    (cs : List Char) :
    decode? (encode cs) = some cs := by
  induction cs with
  | nil => simp [decode?]
  | cons c cs ih =>
      rw [encode_cons, decode?_encodeChar, ih]
      rfl

------------------------------------------------------------
-- Bytes Of Code Units
------------------------------------------------------------

/- The two bytes of a code unit. -/
def unitBytes
    (order : Order)
    (unit : Nat) : List UInt8 :=
  match order with
  | .littleEndian => [UInt8.ofNat (unit % 256), UInt8.ofNat (unit / 256)]
  | .bigEndian => [UInt8.ofNat (unit / 256), UInt8.ofNat (unit % 256)]

/- The bytes of code units. -/
def bytes
    (order : Order)
    (us : List Nat) : List UInt8 :=
  us.flatMap (unitBytes order)

/- The bytes of a unit are grouped into it. -/
theorem units_unitBytes
    (order : Order)
    {unit : Nat}
    (hUnit : unit < 0x10000)
    (rest : List UInt8) :
    units order (unitBytes order unit ++ rest) =
      unit :: units order rest := by
  have hFront : (UInt8.ofNat (unit / 256)).toNat = unit / 256 :=
    Utf8.toNat_ofNat (by omega)
  have hBack : (UInt8.ofNat (unit % 256)).toNat = unit % 256 :=
    Utf8.toNat_ofNat (by omega)
  have hSplit : unit / 256 * 256 + unit % 256 = unit := by omega
  cases order with
  | littleEndian => simp [unitBytes, units, hFront, hBack, hSplit]
  | bigEndian => simp [unitBytes, units, hFront, hBack, hSplit]

/- The bytes of units are grouped into them. -/
theorem units_bytes
    (order : Order)
    {us : List Nat}
    (hUnits : ∀ unit ∈ us, unit < 0x10000) :
    units order (bytes order us) = us := by
  induction us with
  | nil => rfl
  | cons unit us ih =>
      rw [List.forall_mem_cons] at hUnits
      change units order (unitBytes order unit ++ bytes order us) = _
      rw [units_unitBytes order hUnits.1, ih hUnits.2]

/- The units of characters have sixteen bits. -/
theorem lt_of_mem_encode
    {cs : List Char}
    {unit : Nat}
    (hMem : unit ∈ encode cs) :
    unit < 0x10000 := by
  rcases List.mem_flatMap.mp hMem with ⟨c, -, hIn⟩
  have hValid :
      c.toNat < 0xD800 ∨ 0xDFFF < c.toNat ∧ c.toNat < 0x110000 :=
    c.valid
  unfold encodeChar at hIn
  split at hIn
  · rw [List.mem_singleton] at hIn
    omega
  · simp only [List.mem_cons, List.not_mem_nil, or_false] at hIn
    omega

------------------------------------------------------------
-- Unpaired Surrogates
------------------------------------------------------------

/-
  A surrogate at one place of the units is not next to its other
  half: a high one has no low one right behind it, or a low one has
  no high one right before it.
-/
def HasUnpaired
    (us : List Nat) : Prop :=
  ∃ before unit behind,
    us = before ++ unit :: behind ∧
      (isHigh unit = true ∧
          (∀ next, behind.head? = some next → isLow next = false) ∨
        isLow unit = true ∧
          ∀ last, before.getLast? = some last → isHigh last = false)

/-
  Units that do not end in the start of a pair do not do so behind
  a unit that is no such start.
-/
theorem isHigh_getLast
    {unit : Nat}
    (hHigh : isHigh unit = false)
    {before : List Nat}
    (hBefore :
      ∀ last, before.getLast? = some last → isHigh last = false)
    (last : Nat)
    (hLast : (unit :: before).getLast? = some last) :
    isHigh last = false := by
  rw [List.getLast?_cons, Option.some.injEq] at hLast
  cases hEnd : before.getLast? with
  | none => rw [← hLast, hEnd, Option.getD_none, hHigh]
  | some final =>
      rw [← hLast, hEnd, Option.getD_some, hBefore final hEnd]

/- A unit that is no surrogate is no one's other half. -/
theorem hasUnpaired_single
    {unit : Nat}
    (hHigh : isHigh unit = false)
    (hLow : isLow unit = false)
    (us : List Nat) :
    HasUnpaired (unit :: us) ↔ HasUnpaired us := by
  constructor
  · rintro ⟨before, alone, behind, hUnits, hAlone⟩
    cases before with
    | nil =>
        rw [List.nil_append, List.cons.injEq] at hUnits
        rcases hUnits with ⟨rfl, -⟩
        simp [hHigh, hLow] at hAlone
    | cons first before =>
        rw [List.cons_append, List.cons.injEq] at hUnits
        refine ⟨before, alone, behind, hUnits.2, ?_⟩
        refine hAlone.imp id (And.imp id ?_)
        intro hBefore last hLast
        exact hBefore last (by simp [List.getLast?_cons, hLast])
  · rintro ⟨before, alone, behind, rfl, hAlone⟩
    refine ⟨unit :: before, alone, behind, rfl, ?_⟩
    exact hAlone.imp id (And.imp id (isHigh_getLast hHigh))

/- The halves of a pair are no other unit's. -/
theorem hasUnpaired_pair
    {high low : Nat}
    (hHigh : isHigh high = true)
    (hLow : isLow low = true)
    (us : List Nat) :
    HasUnpaired (high :: low :: us) ↔ HasUnpaired us := by
  have hNotHigh : isHigh low = false := by
    cases hBoth : isHigh low with
    | false => rfl
    | true => rw [isLow_of_isHigh hBoth] at hLow; cases hLow
  constructor
  · rintro ⟨before, alone, behind, hUnits, hAlone⟩
    match before with
    | [] =>
        rw [List.nil_append, List.cons.injEq] at hUnits
        rcases hUnits with ⟨rfl, rfl⟩
        simp [hLow, isLow_of_isHigh hHigh] at hAlone
    | [first] =>
        simp only [List.cons_append, List.nil_append,
          List.cons.injEq] at hUnits
        rcases hUnits with ⟨rfl, rfl, rfl⟩
        simp [hNotHigh, hHigh] at hAlone
    | first :: second :: before =>
        simp only [List.cons_append, List.cons.injEq] at hUnits
        refine ⟨before, alone, behind, hUnits.2.2, ?_⟩
        refine hAlone.imp id (And.imp id ?_)
        intro hBefore last hLast
        exact hBefore last (by simp [List.getLast?_cons, hLast])
  · rintro ⟨before, alone, behind, rfl, hAlone⟩
    refine ⟨high :: low :: before, alone, behind, rfl, ?_⟩
    rw [List.getLast?_cons_cons]
    exact hAlone.imp id (And.imp id (isHigh_getLast hNotHigh))

/-
  Units have no reading exactly if one of them is a surrogate
  without its other half.
-/
theorem decode?_eq_none_iff
    (us : List Nat) :
    decode? us = none ↔ HasUnpaired us := by
  fun_induction decode? us with
  | case1 => simp [HasUnpaired]
  | case2 unit hHigh =>
      refine iff_of_true rfl ⟨[], unit, [], rfl, .inl ⟨hHigh, ?_⟩⟩
      simp
  | case3 unit hHigh low rest hLow code ih =>
      rw [hasUnpaired_pair hHigh hLow, Option.map_eq_none_iff, ih]
  | case4 unit hHigh next rest hNotLow =>
      refine
        iff_of_true rfl ⟨[], unit, next :: rest, rfl, .inl ⟨hHigh, ?_⟩⟩
      simpa using hNotLow
  | case5 unit rest hNotHigh hLow =>
      refine iff_of_true rfl ⟨[], unit, rest, rfl, .inr ⟨hLow, ?_⟩⟩
      simp
  | case6 unit rest hNotHigh hNotLow ih =>
      rw [Bool.not_eq_true] at hNotHigh hNotLow
      rw [hasUnpaired_single hNotHigh hNotLow,
        Option.map_eq_none_iff, ih]

end FixedPage.Text.Utf16

namespace FixedPage.Markup

open Text

namespace Encoding

------------------------------------------------------------
-- Marks
------------------------------------------------------------

/- The mark in front of UTF-8. -/
def markUtf8 : List UInt8 :=
  [0xEF, 0xBB, 0xBF]

/- The mark in front of UTF-16. -/
def mark : Utf16.Order → List UInt8
| .littleEndian => [0xFF, 0xFE]
| .bigEndian => [0xFE, 0xFF]

------------------------------------------------------------
-- Text Without A Mark
------------------------------------------------------------

/-
  Only a text that starts with the marking character has the bytes
  of the mark in front.
-/
theorem head_of_markUtf8
    {cs : List Char}
    {rest : List UInt8}
    (hBytes : Utf8.encode cs = 0xEF :: 0xBB :: 0xBF :: rest) :
    cs.head? = some '\uFEFF' := by
  have hDecode := Utf8.decode_encode cs
  rw [hBytes, Utf8.decode,
    Utf8.decodeFrom_three (by decide) (by decide) (by decide)
      (by decide)] at hDecode
  cases hRest : Utf8.decodeFrom (0 + 3) rest with
  | error fault =>
      rw [hRest] at hDecode
      cases hDecode
  | ok ds =>
      rw [hRest] at hDecode
      rw [← Except.ok.inj hDecode]
      exact congrArg some (by decide)

/- A character starts with none of the last eleven bytes. -/
theorem lead_of_encode
    {cs : List Char}
    {b : UInt8}
    {rest : List UInt8}
    (hBytes : Utf8.encode cs = b :: rest) :
    b.toNat ≤ 244 := by
  refine Nat.le_of_not_lt fun hHigh => ?_
  have hDecode := Utf8.decode_encode cs
  rw [hBytes, Utf8.decode, Utf8.decodeFrom.eq_def] at hDecode
  have hOne : ¬ b < 0x80 := by
    rw [UInt8.lt_iff_toNat_lt]
    change ¬ b.toNat < 128
    omega
  have hOutside :
      ∀ low high : UInt8, high.toNat ≤ 244 →
        ¬ (decide (low ≤ b) && decide (b ≤ high)) = true := by
    intro low high hLast
    rw [Utf8.within_iff]
    omega
  dsimp only at hDecode
  rw [if_neg hOne, if_neg (hOutside 0xC2 0xDF (by decide)),
    if_neg (hOutside 0xE0 0xEF (by decide)),
    if_neg (hOutside 0xF0 0xF4 (by decide))] at hDecode
  cases hDecode

/- The bytes of a text are taken as they are. -/
theorem normalize?_encode
    {cs : List Char}
    (hMark : cs.head? ≠ some '\uFEFF') :
    normalize? (Utf8.encode cs) = some (Utf8.encode cs) := by
  unfold normalize?
  split
  · rename_i rest hBytes
    exact absurd (head_of_markUtf8 hBytes) hMark
  · rename_i rest hBytes
    exact absurd (lead_of_encode hBytes) (by decide)
  · rename_i rest hBytes
    exact absurd (lead_of_encode hBytes) (by decide)
  · rfl

------------------------------------------------------------
-- Marked Text
------------------------------------------------------------

/- The mark of UTF-8 is dropped. -/
theorem normalize?_markUtf8
    (bytes : List UInt8) :
    normalize? (markUtf8 ++ bytes) = some bytes :=
  rfl

/- Code units behind their mark are converted. -/
theorem normalize?_mark
    (order : Utf16.Order)
    {us : List Nat}
    (hUnits : ∀ unit ∈ us, unit < 0x10000) :
    normalize? (mark order ++ Utf16.bytes order us) =
      (Utf16.decode? us).map Utf8.encode := by
  have hMarked :
      normalize? (mark order ++ Utf16.bytes order us) =
        ofUtf16? order (Utf16.bytes order us) := by
    cases order <;> rfl
  rw [hMarked, ofUtf16?, Utf16.units_bytes order hUnits]

end Encoding

------------------------------------------------------------
-- Readers
------------------------------------------------------------

/- Bytes are read as the UTF-8 that they are brought to. -/
theorem readBytes_of_normalize?
    {source text : String}
    {bytes : List UInt8}
    (hText :
      Encoding.normalize? bytes = some (Utf8.encode text.toList)) :
    readBytes source bytes = .ok (readText source text) := by
  unfold readBytes readText
  rw [hText]

/- A part fails as a whole only if it cannot be brought to UTF-8. -/
theorem readBytes_error_iff
    (source : String)
    (bytes : List UInt8) :
    readBytes source bytes =
        .error (.markup ⟨source, 1, 1⟩ .loneSurrogate) ↔
      Encoding.normalize? bytes = none := by
  unfold readBytes
  cases Encoding.normalize? bytes with
  | none => exact iff_of_true rfl rfl
  | some bytes => simp

/-
  A text that does not start with the marking character gives the
  same items from memory, from UTF-8 with and without a mark and
  from UTF-16 in either order. Units behind a mark of UTF-16 give
  an error of the markup exactly if they have an unpaired surrogate.
-/
theorem readBytes_encodings
    (source : String) :
    (∀ text : String,
      text.toList.head? ≠ some '\uFEFF' →
        readBytes source (Utf8.encode text.toList) =
            .ok (readText source text) ∧
          readBytes source
              (Encoding.markUtf8 ++ Utf8.encode text.toList) =
            .ok (readText source text) ∧
          ∀ order,
            readBytes source
                (Encoding.mark order ++
                  Utf16.bytes order (Utf16.encode text.toList)) =
              .ok (readText source text)) ∧
      ∀ order (us : List Nat),
        (∀ unit ∈ us, unit < 0x10000) →
          (readBytes source
                (Encoding.mark order ++ Utf16.bytes order us) =
              .error (.markup ⟨source, 1, 1⟩ .loneSurrogate) ↔
            Utf16.HasUnpaired us) := by
  constructor
  · intro text hMark
    refine ⟨?_, ?_, fun order => ?_⟩
    · exact readBytes_of_normalize? (Encoding.normalize?_encode hMark)
    · exact readBytes_of_normalize? (Encoding.normalize?_markUtf8 _)
    · apply readBytes_of_normalize?
      rw [Encoding.normalize?_mark order fun _ => Utf16.lt_of_mem_encode,
        Utf16.decode?_encode, Option.map_some]
  · intro order us hUnits
    rw [readBytes_error_iff, Encoding.normalize?_mark order hUnits,
      Option.map_eq_none_iff, Utf16.decode?_eq_none_iff]

/- A clef, which takes a pair of surrogates, and one half of it. -/
theorem readBytes_clef :
    readBytes "p"
        (Encoding.mark .littleEndian ++
          Utf16.bytes .littleEndian [0xD834, 0xDD1E]) =
      .ok (readText "p" "𝄞") ∧
      readBytes "p"
          (Encoding.mark .bigEndian ++
            Utf16.bytes .bigEndian [0xD834, 0x3C]) =
        .error (.markup ⟨"p", 1, 1⟩ .loneSurrogate) := by
  have hUnits :
      Utf16.encode "𝄞".toList = [0xD834, 0xDD1E] := by
    decide
  constructor
  · rw [← hUnits]
    exact
      ((readBytes_encodings "p").1 _ (by decide)).2.2 .littleEndian
  · exact
      ((readBytes_encodings "p").2 .bigEndian _ (by decide)).mpr
        ⟨[], 0xD834, [0x3C], rfl, .inl (by decide)⟩

end FixedPage.Markup
