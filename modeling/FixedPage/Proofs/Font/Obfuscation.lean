import FixedPage.Font.Obfuscation
import FixedPage.Package.Archive
import FixedPage.Proofs.Text.Fields
import Mathlib.Data.List.TakeWhile
import Mathlib.Tactic.IntervalCases

/-
  This file tells which names of parts are keys and of which bytes.
  The stem of a name is a key if it is 32 characters but for braces
  and hyphens, and these are hexadecimal digits two by two. A plus
  sign is taken for the first digit of a pair, too, so a name with
  plus signs is a key although it is no row of digits.

  It shows that obfuscated fonts are loaded as the fonts they were
  made from. Each of the first bytes is combined with one byte of
  the key, so that the same key undoes what it did, on files of any
  size; a file that is no font by itself is read again with the key
  that its name gives.

  Main declarations:
    * `Obfuscation.IsStem`
    * `Obfuscation.DigitValue`
    * `Obfuscation.Spells`
    * `Obfuscation.pairs?_eq_some_iff`
    * `Obfuscation.namedKey_spelled`
    * `Obfuscation.getElem?_apply`
    * `Obfuscation.apply_apply`
    * `Obfuscation.length_key`
    * `Face.load_obfuscated`
-/

namespace FixedPage

namespace Obfuscation

open Text

------------------------------------------------------------
-- Stems
------------------------------------------------------------

/-
  The stem of a name: what stands between its last slash and the
  first point behind it.
-/
def IsStem
    (name : String)
    (stem : List Char) : Prop :=
  ∃ folder ending,
    CutsLast '/' name.toList folder (stem ++ ending) ∧
      '.' ∉ stem ∧ (ending = [] ∨ ending.head? = some '.')

/- What follows the last slash of a name. -/
theorem takeWhile_of_cutsLast
    {name : String}
    {folder file : List Char}
    (hCut : CutsLast '/' name.toList folder file) :
    stem name = file.takeWhile (· != '.') := by
  unfold stem
  rw [hCut.cutLast_eq]
  split_ifs with hFolder
  · rw [hCut.whole, hFolder, List.nil_append]
  · rfl

/- A name has one stem. -/
theorem isStem_iff
    {name : String}
    {cs : List Char} :
    IsStem name cs ↔ cs = stem name := by
  constructor
  · rintro ⟨folder, ending, hCut, hPlain, hEnding⟩
    have hStem : ∀ c ∈ cs, (c != '.') = true := by
      intro c hMem
      rw [bne_iff_ne]
      rintro rfl
      exact hPlain hMem
    rw [takeWhile_of_cutsLast hCut, List.takeWhile_append_of_pos hStem]
    rcases hEnding with rfl | hPoint
    · rw [List.takeWhile_nil, List.append_nil]
    · obtain ⟨rest, rfl⟩ := List.head?_eq_some_iff.mp hPoint
      rw [List.takeWhile_cons_of_neg (by decide), List.append_nil]
  · rintro rfl
    obtain ⟨folder, file, hCut⟩ := exists_cutsLast '/' name.toList
    rw [takeWhile_of_cutsLast hCut]
    refine ⟨folder, file.dropWhile (· != '.'), ?_, ?_, ?_⟩
    · rwa [List.takeWhile_append_dropWhile]
    · intro hMem
      have hPoint := List.mem_takeWhile_imp hMem
      exact absurd hPoint (by decide)
    · cases hRest : file.dropWhile (· != '.') with
      | nil => exact .inl rfl
      | cons c rest =>
          have hPoint : (c != '.') = false := by
            have hHead :=
              List.head?_dropWhile_not (· != '.') file
            rwa [hRest] at hHead
          exact .inr (congrArg some (bne_eq_false_iff_eq.mp hPoint))

------------------------------------------------------------
-- Digits
------------------------------------------------------------

/- A hexadecimal digit of either case and its value. -/
def DigitValue
    (c : Char)
    (value : Nat) : Prop :=
  "0123456789abcdef".toList[value]? = some c ∨
    "0123456789ABCDEF".toList[value]? = some c

/- A digit or, with the value zero, a plus sign. -/
def SignedValue
    (c : Char)
    (value : Nat) : Prop :=
  DigitValue c value ∨ c = '+' ∧ value = 0

/- The value of a digit is less than sixteen. -/
theorem DigitValue.less
    {c : Char}
    {value : Nat}
    (hDigit : DigitValue c value) :
    value < 16 := by
  rcases hDigit with hLower | hUpper
  · exact (List.getElem?_eq_some_iff.mp hLower).1
  · exact (List.getElem?_eq_some_iff.mp hUpper).1

theorem SignedValue.less
    {c : Char}
    {value : Nat}
    (hSigned : SignedValue c value) :
    value < 16 := by
  rcases hSigned with hDigit | ⟨-, rfl⟩
  · exact hDigit.less
  · decide

/- A character that lies at a distance from a first one. -/
theorem eq_ofNat_of_toNat
    {c : Char}
    {n : Nat}
    (hCode : c.toNat = n) :
    c = Char.ofNat n := by
  rw [← hCode, Char.ofNat_toNat]

/- The digits that are read are the hexadecimal ones. -/
theorem digit?_eq_some_iff
    {c : Char}
    {value : Nat} :
    Markup.digit? 16 c = some value ↔ DigitValue c value := by
  constructor
  · intro hDigit
    unfold Markup.digit? at hDigit
    obtain ⟨hValue, -⟩ := Option.filter_eq_some_iff.mp hDigit
    split_ifs at hValue with hDecimal hLower hUpper
    · simp only [Char.isDigit, Bool.and_eq_true, decide_eq_true_eq,
        ge_iff_le, UInt32.le_iff_toNat_le] at hDecimal
      have hFrom : 48 ≤ c.toNat := hDecimal.1
      have hTo : c.toNat ≤ 57 := hDecimal.2
      have hIs : c.toNat - 48 = value := Option.some.inj hValue
      have hLess : value < 10 := by omega
      rw [eq_ofNat_of_toNat (show c.toNat = 48 + value by omega)]
      left
      interval_cases value <;> decide
    · simp only [Bool.and_eq_true, decide_eq_true_eq, Char.le_def,
        UInt32.le_iff_toNat_le] at hLower
      have hFrom : 97 ≤ c.toNat := hLower.1
      have hTo : c.toNat ≤ 102 := hLower.2
      have hIs : c.toNat - 97 + 10 = value := Option.some.inj hValue
      have hLeast : 10 ≤ value := by omega
      have hLess : value < 16 := by omega
      rw [eq_ofNat_of_toNat (show c.toNat = 87 + value by omega)]
      left
      interval_cases value <;> decide
    · simp only [Bool.and_eq_true, decide_eq_true_eq, Char.le_def,
        UInt32.le_iff_toNat_le] at hUpper
      have hFrom : 65 ≤ c.toNat := hUpper.1
      have hTo : c.toNat ≤ 70 := hUpper.2
      have hIs : c.toNat - 65 + 10 = value := Option.some.inj hValue
      have hLeast : 10 ≤ value := by omega
      have hLess : value < 16 := by omega
      rw [eq_ofNat_of_toNat (show c.toNat = 55 + value by omega)]
      right
      interval_cases value <;> decide
  · intro hDigit
    have hLess := hDigit.less
    unfold DigitValue at hDigit
    interval_cases value <;> rcases hDigit with h | h <;> cases h <;> decide

/- A plus sign is no digit. -/
theorem not_digitValue_plus
    (value : Nat) :
    ¬ DigitValue '+' value := by
  rw [← digit?_eq_some_iff]
  exact nofun

/- A digit or a plus sign is taken for the first digit of a pair. -/
theorem lead?_eq_some_iff
    {c : Char}
    {value : Nat} :
    (if c == '+' then some 0 else Markup.digit? 16 c) = some value ↔
      SignedValue c value := by
  unfold SignedValue
  split_ifs with hPlus
  · have hIs := beq_iff_eq.mp hPlus
    subst hIs
    simp only [not_digitValue_plus, Option.some.injEq, true_and,
      false_or]
    exact eq_comm
  · have hNot : c ≠ '+' := fun hIs => hPlus (beq_iff_eq.mpr hIs)
    simp only [hNot, false_and, or_false]
    exact digit?_eq_some_iff

/- A pair of characters is read from its first one on. -/
theorem byte?_eq
    (high low : Char) :
    byte? high low =
      (if high == '+' then some 0 else Markup.digit? 16 high).bind
        fun m =>
          (Markup.digit? 16 low).bind fun n =>
            some (UInt8.ofNat (16 * m + n)) := by
  unfold byte?
  split <;> rfl

/- Two characters give a byte, the first one the larger part. -/
theorem byte?_eq_some_iff
    {high low : Char}
    {byte : UInt8} :
    byte? high low = some byte ↔
      ∃ m n,
        SignedValue high m ∧ DigitValue low n ∧
          byte.toNat = 16 * m + n := by
  have hByte {m n : Nat}
      (hHigh : SignedValue high m)
      (hLow : DigitValue low n) :
      UInt8.ofNat (16 * m + n) = byte ↔ byte.toNat = 16 * m + n := by
    have hFirst := hHigh.less
    have hSecond := hLow.less
    rw [← UInt8.toNat_inj, UInt8.toNat_ofNat',
      Nat.mod_eq_of_lt (by omega)]
    exact eq_comm
  simp only [byte?_eq, Option.bind_eq_some_iff, Option.some.injEq,
    lead?_eq_some_iff, digit?_eq_some_iff]
  constructor
  · rintro ⟨m, hHigh, n, hLow, hIs⟩
    exact ⟨m, n, hHigh, hLow, (hByte hHigh hLow).mp hIs⟩
  · rintro ⟨m, n, hHigh, hLow, hIs⟩
    exact ⟨m, hHigh, n, hLow, (hByte hHigh hLow).mpr hIs⟩

------------------------------------------------------------
-- Pairs
------------------------------------------------------------

/-
  Characters spell bytes two by two: byte `i` has the value of the
  characters `2 * i` and `2 * i + 1`, where `Leads` gives the value
  of the first of them.
-/
structure Spells
    (Leads : Char → Nat → Prop)
    (digits : List Char)
    (bytes : List UInt8) : Prop where
  size : digits.length = 2 * bytes.length
  value :
    ∀ i < bytes.length,
      ∃ high low m n,
        digits[2 * i]? = some high ∧ digits[2 * i + 1]? = some low ∧
          Leads high m ∧ DigitValue low n ∧
          bytes[i]?.map UInt8.toNat = some (16 * m + n)

variable {Leads : Char → Nat → Prop}

/- The first pair and those behind it. -/
theorem spells_cons_iff
    {high low : Char}
    {digits : List Char}
    {byte : UInt8}
    {bytes : List UInt8} :
    Spells Leads (high :: low :: digits) (byte :: bytes) ↔
      (∃ m n,
        Leads high m ∧ DigitValue low n ∧ byte.toNat = 16 * m + n) ∧
        Spells Leads digits bytes := by
  constructor
  · rintro ⟨hSize, hValue⟩
    simp only [List.length_cons] at hSize hValue
    refine ⟨?_, by omega, ?_⟩
    · obtain ⟨_, _, m, n, hHigh, hLow, hLead, hDigit, hIs⟩ :=
        hValue 0 (Nat.succ_pos _)
      cases hHigh
      cases hLow
      exact ⟨m, n, hLead, hDigit, Option.some.inj hIs⟩
    · intro i hLess
      exact hValue (i + 1) (Nat.succ_lt_succ hLess)
  · rintro ⟨⟨m, n, hLead, hDigit, hIs⟩, hSize, hValue⟩
    constructor
    · simp only [List.length_cons]
      omega
    · intro i hLess
      cases i with
      | zero =>
          exact ⟨high, low, m, n, rfl, rfl, hLead, hDigit,
            congrArg some hIs⟩
      | succ i => exact hValue i (Nat.lt_of_succ_lt_succ hLess)

/- Pairs of digits, or of a plus sign and a digit, give their bytes. -/
theorem pairs?_eq_some_iff
    {digits : List Char}
    {bytes : List UInt8} :
    pairs? digits = some bytes ↔ Spells SignedValue digits bytes := by
  fun_induction pairs? digits generalizing bytes with
  | case1 =>
      constructor
      · intro hPairs
        cases hPairs
        exact ⟨rfl, nofun⟩
      · rintro ⟨hSize, -⟩
        cases bytes with
        | nil => rfl
        | cons byte bytes => cases hSize
  | case2 high low rest ih =>
      cases bytes with
      | nil =>
          constructor
          · intro hPairs
            simp [Option.bind_eq_some_iff] at hPairs
          · rintro ⟨hSize, -⟩
            cases hSize
      | cons byte bytes =>
          rw [spells_cons_iff, ← byte?_eq_some_iff, ← ih]
          simp only [Option.bind_eq_bind, Option.bind_eq_some_iff,
            Option.pure_def, Option.some.injEq, List.cons.injEq,
            exists_eq_right_right]
  | case3 digits hNil hPair =>
      constructor
      · exact nofun
      · rintro ⟨hSize, -⟩
        match digits with
        | [] => exact absurd rfl hNil
        | [c] =>
            rw [List.length_singleton] at hSize
            omega
        | high :: low :: rest => exact absurd rfl (hPair high low rest)

/- Digits alone spell a key exactly if no plus sign is among them. -/
theorem spells_digits_iff
    {digits : List Char}
    {bytes : List UInt8} :
    Spells DigitValue digits bytes ↔
      Spells SignedValue digits bytes ∧ '+' ∉ digits := by
  constructor
  · rintro ⟨hSize, hValue⟩
    refine ⟨⟨hSize, ?_⟩, ?_⟩
    · intro i hLess
      obtain ⟨high, low, m, n, hHigh, hLow, hLead, hRest⟩ := hValue i hLess
      exact ⟨high, low, m, n, hHigh, hLow, .inl hLead, hRest⟩
    · intro hPlus
      obtain ⟨k, hInside, hIs⟩ := List.getElem_of_mem hPlus
      obtain ⟨high, low, m, n, hHigh, hLow, hLead, hDigit, -⟩ :=
        hValue (k / 2) (by omega)
      have hAt := List.getElem?_eq_getElem hInside
      rw [hIs] at hAt
      -- the plus sign is the first or the second character of its pair
      rcases Nat.mod_two_eq_zero_or_one k with hEven | hOdd
      · rw [show 2 * (k / 2) = k by omega, hAt] at hHigh
        cases hHigh
        exact not_digitValue_plus m hLead
      · rw [show 2 * (k / 2) + 1 = k by omega, hAt] at hLow
        cases hLow
        exact not_digitValue_plus n hDigit
  · rintro ⟨⟨hSize, hValue⟩, hPlain⟩
    refine ⟨hSize, fun i hLess => ?_⟩
    obtain ⟨high, low, m, n, hHigh, hLow, hLead, hRest⟩ := hValue i hLess
    rcases hLead with hDigit | ⟨rfl, -⟩
    · exact ⟨high, low, m, n, hHigh, hLow, hDigit, hRest⟩
    · exact absurd (List.mem_of_getElem? hHigh) hPlain

------------------------------------------------------------
-- Keys
------------------------------------------------------------

/- Number of bytes of a key. -/
def keySize : Nat :=
  16

/- A stem without braces and hyphens. -/
def bare
    (stem : List Char) : List Char :=
  stem.filter fun c => c ∉ ['\x7b', '\x7d', '-']

/-
  A name is a key by its stem: but for braces and hyphens this is
  32 characters that spell the bytes.
-/
def NamesKey
    (Leads : Char → Nat → Prop)
    (name : String)
    (key : List UInt8) : Prop :=
  ∃ stem,
    IsStem name stem ∧ (bare stem).length = 32 ∧
      Spells Leads (bare stem) key

/- The key of a name is read from its bare stem. -/
theorem key?_eq
    (name : String) :
    key? name =
      if (bare (stem name)).length = 32 then pairs? (bare (stem name))
      else none := by
  have hBare :
      (stem name).filter (fun c => !isSeparator c) = bare (stem name) := by
    unfold bare isSeparator
    apply List.filter_congr
    intro c _
    simp [Bool.or_assoc, beq_eq_decide]
  unfold key?
  dsimp only
  rw [hBare]
  simp only [beq_iff_eq]

/- A name gives a whole key or none. -/
theorem length_key
    {name : String}
    {key : List UInt8}
    (hKey : key? name = some key) :
    key.length = keySize := by
  rw [key?_eq] at hKey
  split_ifs at hKey with hDigits
  have hSize := (pairs?_eq_some_iff.mp hKey).size
  unfold keySize
  omega

/-
  A name has one stem. The bytes that the name gives are those that
  the stem spells in hexadecimal digits of either case, two by two,
  once braces and hyphens are removed and 32 characters are left;
  but the first digit of a pair may be a plus sign instead. So the
  name gives the bytes that its digits spell, and if it gives
  bytes, its digits spell them exactly if no plus sign is there.
-/
theorem namedKey_spelled
    (name : String)
    (key : List UInt8) :
    (∃! stem, IsStem name stem) ∧
      (key? name = some key ↔ NamesKey SignedValue name key) ∧
      (NamesKey DigitValue name key ↔
        key? name = some key ∧
          ∀ stem, IsStem name stem → '+' ∉ bare stem) := by
  have hRead :
      key? name = some key ↔
        (bare (stem name)).length = 32 ∧
          Spells SignedValue (bare (stem name)) key := by
    rw [key?_eq, ← pairs?_eq_some_iff]
    split_ifs with hSize
    · simp [hSize]
    · simp [hSize]
  simp only [NamesKey, isStem_iff, exists_eq_left, existsUnique_eq,
    true_and, forall_eq]
  refine ⟨hRead, ?_⟩
  rw [hRead, spells_digits_iff, and_assoc]

namespace SignedName

/- A name with plus signs in place of first digits. -/
def name : String :=
  "/Fonts/\x7b+1+2+3+4-+5+6-+7+8-+9+A-+B+C+D+E+F+0\x7d.odttf"

/- The bytes that it gives. -/
def key : List UInt8 :=
  [1, 2, 3, 4, 5, 6, 7, 8, 9, 10, 11, 12, 13, 14, 15, 0]

end SignedName

/- A name with plus signs gives a key, and no digits spell it. -/
theorem SignedName.plus_taken :
    key? SignedName.name = some SignedName.key ∧
      ∀ key, ¬ NamesKey DigitValue SignedName.name key := by
  have hKey : key? SignedName.name = some SignedName.key := by
    decide +kernel
  refine ⟨hKey, fun key hNamed => ?_⟩
  have hPlain := ((namedKey_spelled SignedName.name key).2.2.mp hNamed).2
  exact hPlain _ (isStem_iff.mpr rfl) (by decide +kernel)

------------------------------------------------------------
-- Bytes
------------------------------------------------------------

/- The byte of a key that a byte of a file is combined with. -/
def keyByte
    (key : List UInt8)
    (i : Nat) : UInt8 :=
  key.getD (15 - i % 16) 0

/- The key is gone through twice, from its last byte on. -/
theorem getElem?_stream
    {key : List UInt8}
    (hKey : key.length = keySize)
    {i : Nat}
    (hLess : i < extent) :
    (key.reverse ++ key.reverse)[i]? = some (keyByte key i) := by
  have hBack (j : Nat) (hj : j < keySize) :
      key.reverse[j]? = some (key.getD (15 - j) 0) := by
    unfold keySize at *
    rw [List.getElem?_reverse (by omega), hKey, List.getD_eq_getElem?_getD,
      List.getElem?_eq_getElem (by omega)]
    rfl
  unfold extent keySize at *
  rcases Nat.lt_or_ge i 16 with hFirst | hSecond
  · rw [List.getElem?_append_left (by simpa [hKey] using hFirst),
      hBack i hFirst, keyByte, Nat.mod_eq_of_lt hFirst]
  · rw [List.getElem?_append_right (by simpa [hKey] using hSecond),
      List.length_reverse, hKey, hBack (i - 16) (by omega), keyByte]
    congr 3
    omega

/-
  Each of the first bytes is combined with a byte of the key, and
  all others stay.
-/
theorem getElem?_apply
    {key : List UInt8}
    (hKey : key.length = keySize)
    (file : List UInt8)
    (i : Nat) :
    (apply key file)[i]? =
      file[i]?.map fun b =>
        if i < extent then b ^^^ keyByte key i else b := by
  have hSize :
      (List.zipWith (· ^^^ ·) (file.take extent)
          (key.reverse ++ key.reverse)).length =
        min file.length extent := by
    unfold extent keySize at *
    simp only [List.length_zipWith, List.length_take,
      List.length_append, List.length_reverse, hKey]
    omega
  unfold apply
  dsimp only
  rcases Nat.lt_or_ge i (min file.length extent) with hFirst | hLater
  · have hLess : i < extent := by omega
    rw [List.getElem?_append_left (by rwa [hSize]),
      List.getElem?_zipWith, List.getElem?_take_of_lt hLess,
      getElem?_stream hKey hLess]
    simp only [if_pos hLess]
    cases file[i]? <;> rfl
  · rw [List.getElem?_append_right (by rwa [hSize]), hSize,
      List.getElem?_drop]
    rcases Nat.lt_or_ge i file.length with hInside | hOutside
    · have hPlace : extent + (i - min file.length extent) = i := by omega
      have hBehind : ¬i < extent := by omega
      simp only [hPlace, if_neg hBehind, Option.map_id']
    · rw [List.getElem?_eq_none (by omega),
        List.getElem?_eq_none hOutside]
      rfl

/- The same key undoes what it did. -/
theorem apply_apply
    {key : List UInt8}
    (hKey : key.length = keySize)
    (file : List UInt8) :
    apply key (apply key file) = file := by
  apply List.ext_getElem?
  intro i
  rw [getElem?_apply hKey, getElem?_apply hKey, Option.map_map]
  cases file[i]? with
  | none => rfl
  | some b =>
      simp only [Option.map_some, Function.comp]
      split
      · rw [UInt8.xor_assoc, UInt8.xor_self, UInt8.xor_zero]
      · rfl

/- Nothing behind the first bytes changes. -/
theorem drop_apply
    {key : List UInt8}
    (hKey : key.length = keySize)
    (file : List UInt8) :
    (apply key file).drop extent = file.drop extent := by
  apply List.ext_getElem?
  intro i
  have hBehind : ¬extent + i < extent := by omega
  simp only [List.getElem?_drop, getElem?_apply hKey, if_neg hBehind,
    Option.map_id']

/- A file keeps its size. -/
theorem length_apply
    {key : List UInt8}
    (hKey : key.length = keySize)
    (file : List UInt8) :
    (apply key file).length = file.length := by
  unfold apply extent keySize at *
  simp only [List.length_append, List.length_zipWith, List.length_take,
    List.length_reverse, List.length_drop, hKey]
  omega

end Obfuscation

------------------------------------------------------------
-- Faces
------------------------------------------------------------

/-
  A key takes itself back, on a file of any size, and changes only
  the first bytes of it. So a font that is obfuscated with the key
  that a part is named by is loaded from this part as the face of
  the font, unless what obfuscation has made of it is a font, too.
-/
theorem Face.load_obfuscated :
    (∀ key : List UInt8,
      key.length = Obfuscation.keySize →
        ∀ file : List UInt8,
          Obfuscation.apply key (Obfuscation.apply key file) = file ∧
            (Obfuscation.apply key file).length = file.length ∧
            (Obfuscation.apply key file).drop Obfuscation.extent =
              file.drop Obfuscation.extent ∧
            ∀ i < Obfuscation.extent,
              (Obfuscation.apply key file)[i]? =
                file[i]?.map (· ^^^ Obfuscation.keyByte key i)) ∧
      ∀ (package : Package) (name : String) (key file : List UInt8)
        (face : Face),
        Obfuscation.key? name = some key →
          Face.read file.toArray = .ok face →
          (∃ fault,
            Face.read (Obfuscation.apply key file).toArray =
              .error fault) →
          package.find? name = some (Obfuscation.apply key file) →
            key.length = Obfuscation.keySize ∧
              Face.load package.find? name = .ok face := by
  constructor
  · intro key hKey file
    refine ⟨Obfuscation.apply_apply hKey file,
      Obfuscation.length_apply hKey file,
      Obfuscation.drop_apply hKey file, fun i hLess => ?_⟩
    simp only [Obfuscation.getElem?_apply hKey, if_pos hLess]
  · rintro package name key file face hKey hFace ⟨fault, hFault⟩ hPart
    have hSize := Obfuscation.length_key hKey
    refine ⟨hSize, ?_⟩
    unfold load
    simp only [hPart, hKey, hFault, Obfuscation.apply_apply hSize, hFace]

section Guid

/- A font with the tables that it cannot do without. -/
def smallFont : List UInt8 :=
  [0, 1, 0, 0, 0, 3, 0, 0, 0, 0, 0, 0] ++
    [0x68, 0x65, 0x61, 0x64, 0, 0, 0, 0, 0, 0, 0, 60, 0, 0, 0, 54] ++
    [0x68, 0x68, 0x65, 0x61, 0, 0, 0, 0, 0, 0, 0, 114, 0, 0, 0, 36] ++
    [0x6D, 0x61, 0x78, 0x70, 0, 0, 0, 0, 0, 0, 0, 150, 0, 0, 0, 6] ++
    (List.replicate 18 0 ++ [3, 232] ++ List.replicate 34 0) ++
    List.replicate 36 0 ++
    [0, 0, 0x50, 0, 0, 1]

/- The name of a part that is a key. -/
def guidName : String :=
  "/Fonts/\x7b0A1B2C3D-4E5F-6071-8293-A4B5C6D7E8F9\x7d.odttf"

/- The key that it is. -/
def guidKey : List UInt8 :=
  [0x0A, 0x1B, 0x2C, 0x3D, 0x4E, 0x5F, 0x60, 0x71, 0x82, 0x93, 0xA4,
    0xB5, 0xC6, 0xD7, 0xE8, 0xF9]

/- A package with the font, obfuscated with this key. -/
def guidPackage : Package :=
  .ofList [(guidName, Obfuscation.apply guidKey smallFont)]

/- The font is loaded from the package as it was. -/
theorem Face.load_guid :
    ∃ face,
      Obfuscation.key? guidName = some guidKey ∧
        Face.read smallFont.toArray = .ok face ∧
        Face.read (Obfuscation.apply guidKey smallFont).toArray =
          .error .unknownMagic ∧
        guidPackage.find? guidName =
          some (Obfuscation.apply guidKey smallFont) ∧
        Face.load guidPackage.find? guidName = .ok face ∧
        Obfuscation.apply guidKey
            (Obfuscation.apply guidKey smallFont) =
          smallFont := by
  have hKey : Obfuscation.key? guidName = some guidKey := by
    decide +kernel
  have hOk : (Face.read smallFont.toArray).isOk = true := by
    decide +kernel
  have hStart :
      FontTables.start (Obfuscation.apply guidKey smallFont).toArray =
        .error .unknownMagic := by
    decide +kernel
  have hFault :
      Face.read (Obfuscation.apply guidKey smallFont).toArray =
        .error .unknownMagic := by
    unfold read FontTables.ofBytes
    rw [hStart]
    rfl
  have hPart :
      guidPackage.find? guidName =
        some (Obfuscation.apply guidKey smallFont) := by
    simp [guidPackage, Package.ofList, Package.insert, Package.find?]
  obtain ⟨face, hFace⟩ :
      ∃ face, Face.read smallFont.toArray = .ok face := by
    cases hRead : Face.read smallFont.toArray with
    | ok face => exact ⟨face, rfl⟩
    | error fault =>
        rw [hRead] at hOk
        cases hOk
  obtain ⟨hBytes, hLoad⟩ := load_obfuscated
  exact
    ⟨face, hKey, hFace, hFault, hPart,
      (hLoad _ _ _ _ _ hKey hFace ⟨_, hFault⟩ hPart).2,
      (hBytes _ (Obfuscation.length_key hKey) _).1⟩

end Guid

end FixedPage
