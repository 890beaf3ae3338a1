import FixedPage.Proofs.Markup.Attribute
import FixedPage.Path.Segment
import FixedPage.Values

/-
  This file shows that the values of attributes which the writer
  of a stored geometry looks at mean the same after line ends
  and tabs have become spaces.

  Main declarations:
    * `normalizeChar_eq`
    * `read?_normalizeText`
    * `point?_normalizeValue`
    * `points?_normalizeValue`
-/

namespace FixedPage

open Markup.Tag Text Decimal

------------------------------------------------------------
-- Characters
------------------------------------------------------------

/- A character is kept or is a blank that becomes a space. -/
theorem normalizeChar_cases
    (c : Char) :
    normalizeChar c = c ∨
      normalizeChar c = ' ' ∧ (c = '\t' ∨ c = '\n' ∨ c = '\r') := by
  unfold normalizeChar
  split
  · rename_i hBlank
    refine .inr ⟨rfl, ?_⟩
    simpa [or_assoc] using hBlank
  · exact .inl rfl

/- What holds of both or of neither of them holds of both or neither. -/
theorem normalizeChar_congr
    {β : Type}
    {p : Char → β}
    (hTab : p '\t' = p ' ')
    (hLine : p '\n' = p ' ')
    (hReturn : p '\r' = p ' ')
    (c : Char) :
    p (normalizeChar c) = p c := by
  rcases normalizeChar_cases c with hSame | ⟨hSpace, hBlank⟩
  · rw [hSame]
  · rw [hSpace]
    rcases hBlank with rfl | rfl | rfl
    · exact hTab.symm
    · exact hLine.symm
    · exact hReturn.symm

/- Blanks stay blanks and nothing else becomes one. -/
theorem isBlank_normalizeChar
    (c : Char) :
    isBlank (normalizeChar c) = isBlank c :=
  normalizeChar_congr rfl rfl rfl c

/- Digits stay digits and nothing else becomes one. -/
theorem isDigit_normalizeChar
    (c : Char) :
    (normalizeChar c).isDigit = c.isDigit :=
  normalizeChar_congr rfl rfl rfl c

/- Characters that are no blanks are kept. -/
theorem normalizeChar_of_not_isBlank
    {c : Char}
    (hPlain : isBlank c = false) :
    normalizeChar c = c := by
  rcases normalizeChar_cases c with hSame | ⟨_, rfl | rfl | rfl⟩
  · exact hSame
  all_goals exact absurd hPlain (by decide)

/- Digits are kept. -/
theorem normalizeChar_of_isDigit
    {c : Char}
    (hDigit : c.isDigit = true) :
    normalizeChar c = c := by
  rcases normalizeChar_cases c with hSame | ⟨_, rfl | rfl | rfl⟩
  · exact hSame
  all_goals exact absurd hDigit (by decide)

/- Nothing but itself becomes a character that is no blank. -/
theorem normalizeChar_eq
    {c d : Char}
    (hPlain : isBlank d = false) :
    normalizeChar c = d ↔ c = d := by
  rcases normalizeChar_cases c with hSame | ⟨hSpace, hBlank⟩
  · rw [hSame]
  · rw [hSpace]
    constructor
    · rintro rfl
      exact absurd hPlain (by decide)
    · rintro rfl
      rcases hBlank with rfl | rfl | rfl <;>
        exact absurd hPlain (by decide)

------------------------------------------------------------
-- Texts
------------------------------------------------------------

/- A text with line ends and tabs made spaces. -/
abbrev normalizeText
    (cs : List Char) : List Char :=
  cs.map normalizeChar

/- A text without blanks has no blank character. -/
theorem isBlank_of_any
    {ds : List Char}
    (hPlain : ds.any isBlank = false) :
    ∀ d ∈ ds, isBlank d = false := by
  simpa using hPlain

/- Only a text without blanks itself becomes it. -/
theorem normalizeText_eq
    {cs ds : List Char}
    (hPlain : ∀ d ∈ ds, isBlank d = false) :
    normalizeText cs = ds ↔ cs = ds := by
  induction cs generalizing ds with
  | nil => rfl
  | cons c cs ih =>
      cases ds with
      | nil => simp
      | cons d ds =>
          have hRest := ih fun e hMem => hPlain e (.tail _ hMem)
          rw [normalizeText, List.map_cons, List.cons.injEq,
            List.cons.injEq, normalizeChar_eq (hPlain d (.head _)),
            hRest]

/- What is dropped from the front does not change. -/
theorem dropWhile_normalizeText
    {p : Char → Bool}
    (hSame : ∀ c, p (normalizeChar c) = p c)
    (cs : List Char) :
    (normalizeText cs).dropWhile p = normalizeText (cs.dropWhile p) := by
  rw [List.dropWhile_map]
  congr 2
  exact funext hSame

/- What is taken from the front does not change. -/
theorem takeWhile_normalizeText
    {p : Char → Bool}
    (hSame : ∀ c, p (normalizeChar c) = p c)
    (cs : List Char) :
    (normalizeText cs).takeWhile p = normalizeText (cs.takeWhile p) := by
  rw [List.takeWhile_map]
  congr 2
  exact funext hSame

/- Trimming leaves the same text. -/
theorem trim_normalizeText
    (cs : List Char) :
    trim (normalizeText cs) = normalizeText (trim cs) := by
  unfold trim trimEnd trimStart
  rw [dropWhile_normalizeText isBlank_normalizeChar, ← List.map_reverse,
    dropWhile_normalizeText isBlank_normalizeChar, ← List.map_reverse]

/- The last separator is where it was. -/
theorem cutLast_normalizeText
    {separator : Char}
    (hPlain : isBlank separator = false)
    (cs : List Char) :
    cutLast separator (normalizeText cs) =
      (cutLast separator cs).map fun parts =>
        (normalizeText parts.1, normalizeText parts.2) := by
  have hSame :
      ∀ c, (normalizeChar c != separator) = (c != separator) := by
    intro c
    rw [Bool.eq_iff_iff, bne_iff_ne, bne_iff_ne, ne_eq, ne_eq,
      normalizeChar_eq hPlain]
  unfold cutLast
  dsimp only
  rw [← List.map_reverse, dropWhile_normalizeText hSame,
    takeWhile_normalizeText hSame]
  cases cs.reverse.dropWhile (· != separator) with
  | nil => rfl
  | cons c front => simp [List.map_reverse]

/- The words of a text are kept. -/
theorem words_normalizeText
    (cs : List Char) :
    words (normalizeText cs) = words cs := by
  have hFields :
      fields isBlank (normalizeText cs) = fields isBlank cs := by
    induction cs with
    | nil => rfl
    | cons c cs ih =>
        cases hBlank : isBlank c with
        | true =>
            have hStill := (isBlank_normalizeChar c).trans hBlank
            rw [normalizeText, List.map_cons, fields, if_pos hStill,
              fields, if_pos hBlank, ih]
        | false =>
            rw [normalizeText, List.map_cons,
              normalizeChar_of_not_isBlank hBlank, fields, fields, ih]
  unfold words
  rw [hFields]

------------------------------------------------------------
-- Numerals
------------------------------------------------------------

/- The sign of a numeral stays, and so does its absence. -/
theorem cutSign_normalizeText
    (cs : List Char) :
    cutSign (normalizeText cs) =
      ((cutSign cs).1, normalizeText (cutSign cs).2) := by
  cases cs with
  | nil => rfl
  | cons c rest =>
      have hPlus : normalizeChar c = '+' ↔ c = '+' :=
        normalizeChar_eq (by decide)
      have hMinus : normalizeChar c = '-' ↔ c = '-' :=
        normalizeChar_eq (by decide)
      by_cases hIsPlus : c = '+'
      · subst hIsPlus
        rfl
      · by_cases hIsMinus : c = '-'
        · subst hIsMinus
          rfl
        · unfold cutSign
          rw [normalizeText, List.map_cons]
          split
          · rename_i hCons
            exact absurd (hPlus.mp (List.cons.inj hCons).1) hIsPlus
          · rename_i hCons
            exact absurd (hMinus.mp (List.cons.inj hCons).1) hIsMinus
          · split
            · rename_i hCons
              exact absurd (List.cons.inj hCons).1 hIsPlus
            · rename_i hCons
              exact absurd (List.cons.inj hCons).1 hIsMinus
            · rfl

/- Digits are kept. -/
theorem normalizeText_digits
    {cs : List Char}
    (hDigits : ∀ c ∈ cs, c.isDigit = true) :
    normalizeText cs = cs := by
  refine (List.map_congr_left fun c hMem => ?_).trans cs.map_id
  exact normalizeChar_of_isDigit (hDigits c hMem)

/- The digits in front are kept. -/
theorem takeWhile_isDigit_normalizeText
    (cs : List Char) :
    (normalizeText cs).takeWhile Char.isDigit =
      cs.takeWhile Char.isDigit := by
  rw [takeWhile_normalizeText isDigit_normalizeChar]
  apply normalizeText_digits
  intro c hMem
  exact List.all_eq_true.mp List.all_takeWhile c hMem

/- A text of digits is kept, and no other text becomes one. -/
theorem all_isDigit_normalizeText
    (cs : List Char) :
    (normalizeText cs).all Char.isDigit = cs.all Char.isDigit := by
  rw [List.all_map]
  congr 1
  exact funext isDigit_normalizeChar

/- The exponent of a numeral is read as before. -/
theorem exponent?_normalizeText
    (cs : List Char) :
    exponent? (normalizeText cs) = exponent? cs := by
  cases cs with
  | nil => rfl
  | cons c rest =>
      have hLetter :
          (normalizeChar c == 'e' || normalizeChar c == 'E') =
            (c == 'e' || c == 'E') := by
        rw [Bool.eq_iff_iff, Bool.or_eq_true, Bool.or_eq_true,
          beq_iff_eq, beq_iff_eq, beq_iff_eq, beq_iff_eq,
          normalizeChar_eq (by decide), normalizeChar_eq (by decide)]
      rw [normalizeText, List.map_cons]
      unfold exponent?
      dsimp only
      rw [hLetter, cutSign_normalizeText]
      dsimp only
      cases hDigits : (cutSign rest).2.all Char.isDigit with
      | true =>
          rw [normalizeText_digits (List.all_eq_true.mp hDigits),
            hDigits]
      | false =>
          rw [all_isDigit_normalizeText, hDigits]
          simp

/- An unsigned numeral is read as before. -/
theorem readDigits?_normalizeText
    (negative : Bool)
    (cs : List Char) :
    Numeral.readDigits? negative (normalizeText cs) =
      Numeral.readDigits? negative cs := by
  unfold Numeral.readDigits?
  rw [takeWhile_isDigit_normalizeText,
    dropWhile_normalizeText isDigit_normalizeChar]
  generalize cs.dropWhile Char.isDigit = tail
  cases tail with
  | nil => rfl
  | cons c rest =>
      have hPoint : normalizeChar c = '.' ↔ c = '.' :=
        normalizeChar_eq (by decide)
      by_cases hIs : c = '.'
      · subst hIs
        have hSame : normalizeChar '.' = '.' := rfl
        simp only [normalizeText, List.map_cons, hSame,
          takeWhile_isDigit_normalizeText,
          dropWhile_normalizeText isDigit_normalizeChar,
          exponent?_normalizeText]
      · have hNot : normalizeChar c ≠ '.' :=
          fun hSame => hIs (hPoint.mp hSame)
        have hExponent := exponent?_normalizeText (c :: rest)
        rw [normalizeText, List.map_cons] at hExponent ⊢
        simp [hIs, hNot, hExponent]

/- Letters in lowercase are no line ends and no tabs. -/
theorem toLower_normalizeChar
    (c : Char) :
    (normalizeChar c).toLower = normalizeChar c.toLower := by
  have hLetters :
      ∀ n < 91, 65 ≤ n → isBlank (Char.ofNat n).toLower = false := by
    decide
  rcases normalizeChar_cases c with hSame | ⟨_, rfl | rfl | rfl⟩
  · rw [hSame]
    by_cases hUpper : 65 ≤ c.toNat ∧ c.toNat ≤ 90
    · have hPlain :=
        hLetters c.toNat (Nat.lt_succ_of_le hUpper.2) hUpper.1
      rw [Char.ofNat_toNat] at hPlain
      exact (normalizeChar_of_not_isBlank hPlain).symm
    · have hLower : c.toLower = c := dif_neg hUpper
      rw [hLower, hSame]
  all_goals rfl

/- A numeral is read as before. -/
theorem read?_normalizeText
    (cs : List Char) :
    Numeral.read? (normalizeText cs) = Numeral.read? cs := by
  have hWord :
      ∀ (word body : List Char),
        word.any isBlank = false →
          ((normalizeText body).map Char.toLower == word) =
            (body.map Char.toLower == word) := by
    intro word body hPlain
    have hLower :
        (normalizeText body).map Char.toLower =
          normalizeText (body.map Char.toLower) := by
      simp only [normalizeText, List.map_map]
      exact List.map_congr_left fun c _ => toLower_normalizeChar c
    rw [hLower, Bool.eq_iff_iff, beq_iff_eq, beq_iff_eq,
      normalizeText_eq (isBlank_of_any hPlain)]
  unfold Numeral.read?
  rw [cutSign_normalizeText]
  dsimp only
  rw [hWord _ _ rfl, hWord _ _ rfl, hWord _ _ rfl,
    readDigits?_normalizeText]

------------------------------------------------------------
-- Values
------------------------------------------------------------

namespace Value

open Markup

variable {α : Type} [Scalar α]

/- A number is read as before. -/
theorem readNumber?_normalizeText
    (cs : List Char) :
    readNumber? (α := α) (normalizeText cs) = readNumber? cs := by
  unfold readNumber? Scalar.read?
  rw [trim_normalizeText, read?_normalizeText]

/- A point is read as before. -/
theorem point?_normalizeValue
    (value : String) :
    point? (α := α) (normalizeValue value) = point? value := by
  unfold point? normalizeValue readPoint?
  rw [String.toList_ofList, trim_normalizeText,
    cutLast_normalizeText (by decide)]
  cases cutLast ',' (trim value.toList) with
  | none => rfl
  | some parts =>
      simp only [Option.map_some, Option.bind_eq_bind,
        Option.bind_some, readNumber?_normalizeText]

/- Points are read as before. -/
theorem points?_normalizeValue
    (value : String) :
    points? (α := α) (normalizeValue value) = points? value := by
  unfold points? normalizeValue
  rw [String.toList_ofList, words_normalizeText]

/- No other value becomes one without blanks. -/
theorem normalizeValue_eq
    {value word : String}
    (hPlain : word.toList.any isBlank = false) :
    normalizeValue value = word ↔ value = word := by
  rw [← String.toList_inj, ← String.toList_inj, normalizeValue,
    String.toList_ofList]
  exact normalizeText_eq (isBlank_of_any hPlain)

/- A flag is read as before. -/
theorem boolean?_normalizeValue
    (value : String) :
    boolean? (normalizeValue value) = boolean? value := by
  have hTrue : normalizeValue value = "true" ↔ value = "true" :=
    normalizeValue_eq rfl
  have hFalse : normalizeValue value = "false" ↔ value = "false" :=
    normalizeValue_eq rfl
  by_cases hIsTrue : value = "true"
  · rw [hTrue.mpr hIsTrue, hIsTrue]
  · by_cases hIsFalse : value = "false"
    · rw [hFalse.mpr hIsFalse, hIsFalse]
    · rw [boolean?.eq_3 _ hIsTrue hIsFalse,
        boolean?.eq_3 _ (fun h => hIsTrue (hTrue.mp h))
          (fun h => hIsFalse (hFalse.mp h))]

end Value

/- A fill rule is read as before. -/
theorem FillRule.ofName_normalizeValue
    (value : String) :
    FillRule.ofName (Markup.normalizeValue value) =
      FillRule.ofName value := by
  have hSame :
      (Markup.normalizeValue value == "NonZero") =
        (value == "NonZero") := by
    rw [Bool.eq_iff_iff, beq_iff_eq, beq_iff_eq,
      Value.normalizeValue_eq rfl]
  unfold FillRule.ofName
  rw [hSame]

end FixedPage
