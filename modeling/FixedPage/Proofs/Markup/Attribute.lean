import FixedPage.Markup.Tag
import FixedPage.Proofs.Text.Utf8
import FixedPage.Resource.Entry

/-
  This file shows that written attributes are read again. The
  written form of a value has no quotes, and its references name
  what they were written for; only line ends and tabs come back
  as spaces.

  Main declarations:
    * `IsName`
    * `unescape_escape`
    * `Attribute.normalized`
    * `run_attributes`
-/

namespace FixedPage.Markup

open Text.Utf8

------------------------------------------------------------
-- Bytes of characters
------------------------------------------------------------

/- A byte of a text that is an ASCII character is one of the text. -/
theorem mem_of_byte_mem
    {c : Char}
    {cs : List Char}
    (hAscii : c.toNat < 128)
    (hMem : byte c ∈ encode cs) :
    c ∈ cs := by
  have hByte : (byte c).toNat = c.toNat := toNat_ofNat (by omega)
  rcases mem_of_mem_encode hMem (by omega) with
    ⟨d, hIn, hOther, hSame⟩
  have hValue := congrArg UInt8.toNat hSame
  rw [hByte, toNat_ofNat (by omega)] at hValue
  rwa [← Char.ofNat_toNat c, hValue, Char.ofNat_toNat d]

/- The spaces among bytes are characters. -/
theorem isSpace_iff
    (b : UInt8) :
    isSpace b = true ↔
      b = byte ' ' ∨ b = byte '\t' ∨ b = byte '\n' ∨ b = byte '\r' := by
  unfold isSpace
  simp only [Bool.or_eq_true, beq_iff_eq, or_assoc]
  rfl

/- Characters that no name has. -/
def nameBreaks : List Char :=
  [' ', '\t', '\n', '\r', '=', '"', '\'', '<', '>', '/', '&', '!', '?']

/- A name is not empty and has no character that ends one. -/
structure IsName
    (name : String) : Prop where
  nonempty : name.toList ≠ []
  plain : ∀ c ∈ name.toList, c ∉ nameBreaks

instance
    (name : String) : Decidable (IsName name) :=
  decidable_of_iff
    (name.toList ≠ [] ∧
      name.toList.all (!nameBreaks.contains ·) = true)
    (by
      simp only [List.all_eq_true, Bool.not_eq_true',
        List.contains_eq_mem, decide_eq_false_iff_not]
      exact
        ⟨fun hName => ⟨hName.1, hName.2⟩,
          fun hName => ⟨hName.nonempty, hName.plain⟩⟩)

namespace IsName

variable {name : String}

/- The bytes of a name are none that ends one. -/
theorem byte_ne
    (hName : IsName name)
    {b : UInt8}
    (hMem : b ∈ encode name.toList)
    {c : Char}
    (hBreak : c ∈ nameBreaks)
    (hAscii : c.toNat < 128) :
    b ≠ byte c := by
  rintro rfl
  exact hName.plain c (mem_of_byte_mem hAscii hMem) hBreak

/- The bytes of a name are no spaces. -/
theorem isSpace_eq
    (hName : IsName name)
    {b : UInt8}
    (hMem : b ∈ encode name.toList) :
    isSpace b = false := by
  rw [Bool.eq_false_iff, ne_eq, isSpace_iff]
  rintro (rfl | rfl | rfl | rfl)
  · exact hName.byte_ne hMem (c := ' ') (by decide) (by decide) rfl
  · exact hName.byte_ne hMem (c := '\t') (by decide) (by decide) rfl
  · exact hName.byte_ne hMem (c := '\n') (by decide) (by decide) rfl
  · exact hName.byte_ne hMem (c := '\r') (by decide) (by decide) rfl

/- A name has a first byte. -/
theorem encode_ne_nil
    (hName : IsName name) :
    encode name.toList ≠ [] := by
  intro hNil
  exact hName.nonempty (encode_injective hNil)

end IsName

------------------------------------------------------------
-- Values
------------------------------------------------------------

/- Quotes and angle brackets are written as references. -/
theorem escapeChar_plain
    {c d : Char}
    (hMem : d ∈ escapeChar c) :
    d ≠ '"' ∧ d ≠ '<' ∧ d ≠ '>' := by
  have hAll :
      (escapeChar c).all
        (fun d => d != '"' && d != '<' && d != '>') = true := by
    unfold escapeChar
    split
    all_goals first
      | rfl
      | (rename_i hLess hGreater _ _ hQuote
         have hOther : (c ≠ '"' ∧ c ≠ '<') ∧ c ≠ '>' :=
           ⟨⟨hQuote, hLess⟩, hGreater⟩
         simpa using hOther)
  simpa [and_assoc] using List.all_eq_true.mp hAll d hMem

/- A written value has no quotes and no angle brackets. -/
theorem escape_plain
    {value : String}
    {d : Char}
    (hMem : d ∈ (escape value).toList) :
    d ≠ '"' ∧ d ≠ '<' ∧ d ≠ '>' := by
  unfold escape at hMem
  rw [String.toList_ofList] at hMem
  rcases List.mem_flatMap.mp hMem with ⟨c, _, hIn⟩
  exact escapeChar_plain hIn

/- A name is read up to its semicolon. -/
theorem unescapeFrom_open
    {found : Char}
    {name before : List Char}
    (hPlain : name.all (fun c => c != '&' && c != ';') = true)
    (hNamed :
      ∀ first last,
        entity first last (before.reverse ++ name) = .ok found)
    (position start : Nat)
    (rest : List Char) :
    ∃ next,
      unescapeFrom position (some (start, before))
          (name ++ ';' :: rest) =
        (unescapeFrom next none rest).map (found :: ·) := by
  induction name generalizing before position with
  | nil =>
      rw [List.append_nil] at hNamed
      refine ⟨position + ';'.utf8Size, ?_⟩
      rw [List.nil_append, unescapeFrom]
      simp [hNamed]
  | cons c name ih =>
      rw [List.all_cons, Bool.and_eq_true, Bool.and_eq_true,
        bne_iff_ne, bne_iff_ne] at hPlain
      rcases hPlain with ⟨⟨hAmp, hEnd⟩, hPlain⟩
      rw [List.cons_append, unescapeFrom]
      simp only [beq_iff_eq, hAmp, hEnd, if_false]
      refine ih hPlain ?_ _
      simpa using hNamed

/- A named reference is read as the character that it names. -/
theorem unescapeFrom_named
    {found : Char}
    (name : List Char)
    (hPlain : name.all (fun c => c != '&' && c != ';') = true)
    (hNamed : ∀ first last, entity first last name = .ok found)
    (position : Nat)
    (rest : List Char) :
    ∃ next,
      unescapeFrom position none ('&' :: (name ++ ';' :: rest)) =
        (unescapeFrom next none rest).map (found :: ·) := by
  have hBefore :
      ∀ first last,
        entity first last ([].reverse ++ name) = .ok found :=
    hNamed
  rw [unescapeFrom]
  exact unescapeFrom_open hPlain hBefore _ position rest

/- The written form of a character is read as the character. -/
theorem unescapeFrom_escapeChar
    (c : Char)
    (position : Nat)
    (rest : List Char) :
    ∃ next,
      unescapeFrom position none
          ((escapeChar c).map Tag.normalizeChar ++ rest) =
        (unescapeFrom next none rest).map (Tag.normalizeChar c :: ·) := by
  unfold escapeChar
  split
  case h_6 hLess hGreater hAmp hApos hQuote =>
    refine ⟨position + (Tag.normalizeChar c).utf8Size, ?_⟩
    have hPlain : Tag.normalizeChar c ≠ '&' := by
      unfold Tag.normalizeChar
      split
      · decide
      · exact hAmp
    rw [List.map_singleton, List.singleton_append, unescapeFrom]
    simp [hPlain]
  · exact unescapeFrom_named ['l', 't'] rfl (fun _ _ => rfl) _ _
  · exact unescapeFrom_named ['g', 't'] rfl (fun _ _ => rfl) _ _
  · exact unescapeFrom_named ['a', 'm', 'p'] rfl (fun _ _ => rfl) _ _
  · exact
      unescapeFrom_named ['a', 'p', 'o', 's'] rfl (fun _ _ => rfl) _ _
  · exact
      unescapeFrom_named ['q', 'u', 'o', 't'] rfl (fun _ _ => rfl) _ _

/- A written value is read, spaces normalized. -/
theorem unescape_escape
    (value : String) :
    unescape ((escape value).toList.map Tag.normalizeChar) =
      .ok (value.toList.map Tag.normalizeChar) := by
  have hFrom :
      ∀ (cs : List Char) (position : Nat),
        unescapeFrom position none
            ((cs.flatMap escapeChar).map Tag.normalizeChar) =
          .ok (cs.map Tag.normalizeChar) := by
    intro cs
    induction cs with
    | nil =>
        intro position
        rfl
    | cons c cs ih =>
        intro position
        rw [List.flatMap_cons, List.map_append]
        rcases unescapeFrom_escapeChar c position
          ((cs.flatMap escapeChar).map Tag.normalizeChar) with
          ⟨next, hNext⟩
        rw [hNext, ih]
        rfl
  unfold escape unescape
  rw [String.toList_ofList]
  exact hFrom value.toList 0

/- A value as it is read back. -/
def normalizeValue
    (value : String) : String :=
  String.ofList (value.toList.map Tag.normalizeChar)

/- An attribute as it is read back. -/
def Attribute.normalized
    (a : Attribute) : Attribute :=
  ⟨a.name, normalizeValue a.value⟩

/- Encoded text is decoded. -/
theorem decodeText_encode
    (s : String) :
    decodeText (encode s.toList) = .ok s := by
  unfold decodeText
  rw [decode_encode]
  exact congrArg Except.ok (String.ofList_toList)

/- The bytes of a written attribute are read. -/
theorem readAttribute_written
    (a : Attribute) :
    Tag.readAttribute (encode a.name.toList)
        (encode (escape a.value).toList) =
      .ok a.normalized := by
  unfold Tag.readAttribute Tag.readValue
  rw [decodeText_encode, decodeText_encode]
  dsimp only [bind, Except.bind]
  rw [unescape_escape]
  rfl

------------------------------------------------------------
-- Attributes
------------------------------------------------------------

/- The bytes of a written attribute. -/
theorem encode_attributeText
    (a : Attribute) :
    encode (ResourceEntry.attributeText a).toList =
      byte ' ' :: (encode a.name.toList
        ++ byte '=' :: byte '"' :: (encode (escape a.value).toList
          ++ [byte '"'])) := by
  have hSpace : encode " ".toList = [byte ' '] := rfl
  have hOpen : encode "=\"".toList = [byte '=', byte '"'] := rfl
  have hClose : encode "\"".toList = [byte '"'] := rfl
  unfold ResourceEntry.attributeText
  simp only [String.toList_append, encode_append, List.append_assoc,
    hSpace, hOpen, hClose, List.cons_append, List.nil_append]

namespace Tag.Scanner

variable {keys : List Key} {attributes : List Attribute}

/- A name goes on until a sign or a space. -/
theorem run_name
    {bs : List UInt8}
    (hPlain : ∀ b ∈ bs, b ≠ byte '=' ∧ isSpace b = false)
    (start position : Nat)
    (reversed rest : List UInt8) :
    run ⟨.name start reversed, keys, attributes⟩ position
        (bs ++ rest) =
      run ⟨.name start (bs.reverse ++ reversed), keys, attributes⟩
        (position + bs.length) rest := by
  induction bs generalizing position reversed with
  | nil => rfl
  | cons b bs ih =>
      have hFirst := hPlain b (.head _)
      have hStep :
          step ⟨.name start reversed, keys, attributes⟩ position b =
            .ok ⟨.name start (b :: reversed), keys, attributes⟩ := by
        simp [step, hFirst.1, hFirst.2]
      rw [List.cons_append, run, hStep]
      dsimp only
      rw [ih fun c hMem => hPlain c (.tail _ hMem)]
      rw [List.reverse_cons, List.append_assoc, List.length_cons,
        Nat.add_assoc, Nat.add_comm 1]
      rfl

/- A value goes on until its quote. -/
theorem run_value
    {bs : List UInt8}
    {quote : UInt8}
    (hPlain : ∀ b ∈ bs, b ≠ quote)
    (key : Key)
    (position : Nat)
    (reversed rest : List UInt8) :
    run ⟨.value key quote reversed, keys, attributes⟩ position
        (bs ++ rest) =
      run ⟨.value key quote (bs.reverse ++ reversed), keys, attributes⟩
        (position + bs.length) rest := by
  induction bs generalizing position reversed with
  | nil => rfl
  | cons b bs ih =>
      have hFirst := hPlain b (.head _)
      have hStep :
          step ⟨.value key quote reversed, keys, attributes⟩ position b =
            .ok ⟨.value key quote (b :: reversed), keys, attributes⟩ := by
        simp [step, hFirst]
      rw [List.cons_append, run, hStep]
      dsimp only
      rw [ih fun c hMem => hPlain c (.tail _ hMem)]
      rw [List.reverse_cons, List.append_assoc, List.length_cons,
        Nat.add_assoc, Nat.add_comm 1]
      rfl

/- A byte that is taken is followed by the others. -/
theorem run_cons
    {s next : Scanner}
    {position : Nat}
    {b : UInt8}
    (hStep : s.step position b = .ok next)
    (rest : List UInt8) :
    s.run position (b :: rest) = next.run (position + 1) rest := by
  rw [run, hStep]

/- A written attribute is read if its name is new. -/
theorem run_attribute
    {a : Attribute}
    (attributes : List Attribute)
    (hName : IsName a.name)
    (hNew : ∀ k ∈ keys, k.bytes ≠ encode a.name.toList)
    (position : Nat)
    (rest : List UInt8) :
    ∃ next,
      run ⟨.gap, keys, attributes⟩ position
          (encode (ResourceEntry.attributeText a).toList ++ rest) =
        run
          ⟨.gap, ⟨position + 1, encode a.name.toList⟩ :: keys,
            a.normalized :: attributes⟩
          next rest := by
  have hPlain :
      ∀ b ∈ encode a.name.toList, b ≠ byte '=' ∧ isSpace b = false :=
    fun b hMem =>
      ⟨hName.byte_ne hMem (by decide) (by decide),
        hName.isSpace_eq hMem⟩
  have hValue :
      ∀ b ∈ encode (escape a.value).toList, b ≠ byte '"' := by
    rintro b hMem rfl
    exact (escape_plain (mem_of_byte_mem (by decide) hMem)).1 rfl
  have hFind :
      keys.find? (·.bytes == encode a.name.toList) = none := by
    rw [List.find?_eq_none]
    intro k hMem
    rw [beq_iff_eq]
    exact hNew k hMem
  have hRead := readAttribute_written a
  rw [encode_attributeText]
  have hSome := hName.encode_ne_nil
  generalize encode a.name.toList = name at *
  generalize encode (escape a.value).toList = value at *
  cases name with
  | nil => exact absurd rfl hSome
  | cons n ns =>
      have hFirst := (hPlain n (.head _)).2
      have hStart :
          step ⟨.gap, keys, attributes⟩ (position + 1) n =
            .ok ⟨.name (position + 1) [n], keys, attributes⟩ := by
        simp [step, hFirst]
      have hKey :
          ∀ p, step ⟨.name (position + 1) (ns.reverse ++ [n]), keys,
                attributes⟩ p (byte '=') =
            .ok ⟨.equals ⟨position + 1, n :: ns⟩,
              ⟨position + 1, n :: ns⟩ :: keys, attributes⟩ := by
        intro p
        simp [step, acceptKey, hFind]
      have hQuote :
          ∀ p, step ⟨.equals ⟨position + 1, n :: ns⟩,
                ⟨position + 1, n :: ns⟩ :: keys, attributes⟩ p
                (byte '"') =
            .ok ⟨.value ⟨position + 1, n :: ns⟩ (byte '"') [],
              ⟨position + 1, n :: ns⟩ :: keys, attributes⟩ :=
        fun _ => rfl
      have hEnd :
          ∀ p, step ⟨.value ⟨position + 1, n :: ns⟩ (byte '"')
                (value.reverse ++ []),
                ⟨position + 1, n :: ns⟩ :: keys, attributes⟩ p
                (byte '"') =
            .ok ⟨.gap, ⟨position + 1, n :: ns⟩ :: keys,
              a.normalized :: attributes⟩ := by
        intro p
        simp only [step, BEq.rfl, if_true, List.append_nil,
          List.reverse_reverse, acceptValue, hRead]
        rfl
      refine
        ⟨position + 1 + 1 + ns.length + 1 + 1 + value.length + 1, ?_⟩
      simp only [List.cons_append, List.append_assoc,
        List.nil_append]
      rw [run_cons rfl, run_cons hStart,
        run_name fun b hMem => hPlain b (.tail _ hMem),
        run_cons (hKey _), run_cons (hQuote _), run_value hValue,
        run_cons (hEnd _)]

/- Written attributes are read if their names are distinct. -/
theorem run_attributes
    {written : List Attribute}
    (hNames : ∀ a ∈ written, IsName a.name)
    (hDistinct : (written.map Attribute.name).Nodup)
    (hNew :
      ∀ a ∈ written, ∀ k ∈ keys, k.bytes ≠ encode a.name.toList)
    (position : Nat) :
    run ⟨.gap, keys, attributes⟩ position
        (written.flatMap fun a =>
          encode (ResourceEntry.attributeText a).toList) =
      .ok (attributes.reverse ++ written.map Attribute.normalized) := by
  induction written generalizing keys attributes position with
  | nil => simp [run, finish]
  | cons a rest ih =>
      rw [List.map_cons, List.nodup_cons] at hDistinct
      rcases run_attribute attributes (hNames a (.head _))
        (hNew a (.head _)) position
        (rest.flatMap fun a =>
          encode (ResourceEntry.attributeText a).toList) with
        ⟨next, hRun⟩
      have hOther :
          ∀ b ∈ rest,
            ∀ k ∈ (⟨position + 1, encode a.name.toList⟩ : Key) :: keys,
              k.bytes ≠ encode b.name.toList := by
        intro b hMem k hKey
        rcases List.mem_cons.mp hKey with rfl | hKey
        · intro hSame
          have hName := String.toList_inj.mp (encode_injective hSame)
          apply hDistinct.1
          rw [hName]
          exact List.mem_map_of_mem hMem
        · exact hNew b (.tail _ hMem) k hKey
      rw [List.flatMap_cons, hRun,
        ih (fun b hMem => hNames b (.tail _ hMem)) hDistinct.2 hOther]
      simp

end Tag.Scanner

end FixedPage.Markup
