import FixedPage.Path.Token

/-
  This file states which texts are numbers of path data and how
  path data is cut into tokens. A number is the longest one that
  the text begins with; besides numbers there are commas and
  letters, and only spaces and tabs stand between tokens. Tokens
  that can be written at all can be written one after the other.

  Main declarations:
    * `NumberText`
    * `Lexes`
    * `cutNumber_eq`
    * `scan_shows`
    * `Lexes.scanned`
    * `scan_of_lexes`
    * `Token.Written`
    * `exists_lexes`
-/

namespace FixedPage.PathData

open Decimal

variable {α : Type}

------------------------------------------------------------
-- Numbers
------------------------------------------------------------

/- The sign of a number, if it has one; true for a minus. -/
inductive Sign : Bool → List Char → Prop
| none :
    Sign false []
| plus :
    Sign false ['+']
| minus :
    Sign true ['-']

/-
  A number is an optional sign and digits with at most one point
  and at least one digit.
-/
inductive NumberText
    [Scalar α] :
    List Char → α → Prop
| whole
    {negative : Bool}
    {sign digits : List Char}
    (hSign : Sign negative sign)
    (hDigits : ∀ c ∈ digits, c.isDigit = true)
    (hSome : digits ≠ []) :
    NumberText (sign ++ digits)
      (Scalar.ofDecimal negative (natOfDigits digits) 0)
| point
    {negative : Bool}
    {sign whole fraction : List Char}
    (hSign : Sign negative sign)
    (hWhole : ∀ c ∈ whole, c.isDigit = true)
    (hFraction : ∀ c ∈ fraction, c.isDigit = true)
    (hSome : whole ++ fraction ≠ []) :
    NumberText (sign ++ (whole ++ '.' :: fraction))
      (Scalar.ofDecimal negative (natOfDigits (whole ++ fraction))
        (-fraction.length))

------------------------------------------------------------
-- Tokens
------------------------------------------------------------

/-
  A text begins with some tokens, and some of the text is left.
  What is left takes part: a number goes on as far as it can.
-/
inductive Lexes
    [Scalar α] :
    List Char → List (Token α) → List Char → Prop
| done
    (cs : List Char) :
    Lexes cs [] cs
| blank
    {c : Char}
    {cs rest : List Char}
    {ts : List (Token α)}
    (hBlank : c = ' ' ∨ c = '\t')
    (hRest : Lexes cs ts rest) :
    Lexes (c :: cs) ts rest
| comma
    {cs rest : List Char}
    {ts : List (Token α)}
    (hRest : Lexes cs ts rest) :
    Lexes (',' :: cs) (.comma :: ts) rest
| command
    {c : Char}
    {cs rest : List Char}
    {ts : List (Token α)}
    (hLetter : c.isAlpha = true)
    (hRest : Lexes cs ts rest) :
    Lexes (c :: cs) (.command c :: ts) rest
| number
    {text cs rest : List Char}
    {value : α}
    {ts : List (Token α)}
    (hNumber : NumberText text value)
    (hLongest :
      ∀ (more tail : List Char) (other : α),
        cs = more ++ tail → NumberText (text ++ more) other →
          more = [])
    (hRest : Lexes cs ts rest) :
    Lexes (text ++ cs) (.number value :: ts) rest

------------------------------------------------------------
-- Rows of digits
------------------------------------------------------------

/- The text does not go on with a digit. -/
def EndsDigits
    (cs : List Char) : Prop :=
  ∀ c rest, cs = c :: rest → c.isDigit = false

/- A point is no digit. -/
theorem isDigit_of_point
    {more left : List Char}
    {c : Char}
    (hCons : '.' :: more = c :: left) :
    c.isDigit ≠ true := by
  cases hCons
  decide

theorem endsDigits_point
    (more : List Char) :
    EndsDigits ('.' :: more) := by
  intro c rest hCons
  rw [Bool.eq_false_iff]
  exact isDigit_of_point hCons

/- What follows the digits in front is no digit. -/
theorem endsDigits_dropWhile
    (cs : List Char) :
    EndsDigits (cs.dropWhile Char.isDigit) := by
  induction cs with
  | nil => exact nofun
  | cons d ds ih =>
      rw [List.dropWhile_cons]
      split
      · exact ih
      · rename_i hDigit
        intro c rest hCons
        cases hCons
        simpa using hDigit

/- Digits in front of a text are part of all of them. -/
theorem digits_prefix
    {digits more whole tail : List Char}
    (hDigits : ∀ c ∈ digits, c.isDigit = true)
    (hEnds : EndsDigits tail)
    (hSame : digits ++ more = whole ++ tail) :
    ∃ left, whole = digits ++ left ∧ more = left ++ tail := by
  rcases List.append_eq_append_iff.mp hSame with
    ⟨left, hWhole, hMore⟩ | ⟨left, hDigit, hTail⟩
  · exact ⟨left, hWhole, hMore⟩
  · cases left with
    | nil =>
        exact
          ⟨[], by simpa using hDigit.symm, by simpa using hTail.symm⟩
    | cons c left =>
        have hNot := hEnds c (left ++ more) (by simpa using hTail)
        have hIs := hDigits c (by simp [hDigit])
        rw [hNot] at hIs
        cases hIs

/- The digits in front are cut off where they end. -/
theorem cut_digits
    {digits tail : List Char}
    (hDigits : ∀ c ∈ digits, c.isDigit = true)
    (hEnds : EndsDigits tail) :
    (digits ++ tail).takeWhile Char.isDigit = digits ∧
      (digits ++ tail).dropWhile Char.isDigit = tail := by
  induction digits with
  | nil =>
      cases tail with
      | nil => simp
      | cons c rest => simp [hEnds c rest rfl]
  | cons d ds ih =>
      have hFirst : d.isDigit = true := hDigits d (.head _)
      have hRest := ih fun c hMem => hDigits c (.tail _ hMem)
      simp [hFirst, hRest.1, hRest.2]

------------------------------------------------------------
-- Cutting numbers
------------------------------------------------------------

/-
  A text that is shaped like a number but may lack digits, and
  that cannot go on in the text after it.
-/
inductive Cut : List Char → List Char → Prop
| whole
    {negative : Bool}
    {sign digits tail : List Char}
    (hSign : Sign negative sign)
    (hDigits : ∀ c ∈ digits, c.isDigit = true)
    (hSome : sign ++ digits ≠ [])
    (hEnds : EndsDigits tail)
    (hPoint : ∀ rest, tail ≠ '.' :: rest) :
    Cut (sign ++ digits) tail
| point
    {negative : Bool}
    {sign whole fraction tail : List Char}
    (hSign : Sign negative sign)
    (hWhole : ∀ c ∈ whole, c.isDigit = true)
    (hFraction : ∀ c ∈ fraction, c.isDigit = true)
    (hEnds : EndsDigits tail) :
    Cut (sign ++ (whole ++ '.' :: fraction)) tail

/- The digits in front of a text. -/
theorem isDigit_of_mem_takeWhile
    {cs : List Char}
    {c : Char}
    (hMem : c ∈ cs.takeWhile Char.isDigit) :
    c.isDigit = true :=
  List.all_eq_true.mp (List.all_takeWhile) c hMem

/- The first character of a number is a sign, a digit or a point. -/
theorem sign_of_startsNumber
    {c : Char}
    (hStarts : startsNumber c = true)
    (hPoint : c ≠ '.') :
    ∃ (negative : Bool) (sign lead : List Char),
      Sign negative sign ∧
        (∀ d ∈ lead, d.isDigit = true) ∧ sign ++ lead = [c] := by
  unfold startsNumber at hStarts
  simp only [Bool.or_eq_true, beq_iff_eq] at hStarts
  rcases hStarts with ((hDigit | rfl) | rfl) | hIs
  · exact ⟨false, [], [c], .none, by simpa using hDigit, rfl⟩
  · exact ⟨false, ['+'], [], .plus, nofun, rfl⟩
  · exact ⟨true, ['-'], [], .minus, nofun, rfl⟩
  · exact absurd hIs hPoint

/- A number is cut where its shape ends. -/
theorem cutNumber_cut
    {c : Char}
    (hStarts : startsNumber c = true)
    (rest : List Char) :
    (cutNumber c rest).1 ++ (cutNumber c rest).2 = c :: rest ∧
      Cut (cutNumber c rest).1 (cutNumber c rest).2 := by
  have hDigits :
      ∀ d ∈ rest.takeWhile Char.isDigit, d.isDigit = true :=
    fun d => isDigit_of_mem_takeWhile
  have hEnds := endsDigits_dropWhile rest
  have hSplit :
      rest.takeWhile Char.isDigit ++ rest.dropWhile Char.isDigit =
        rest :=
    List.takeWhile_append_dropWhile
  by_cases hPoint : c = '.'
  · subst hPoint
    have hCut :
        cutNumber '.' rest =
          ('.' :: rest.takeWhile Char.isDigit,
            rest.dropWhile Char.isDigit) := by
      simp [cutNumber]
    have hShape :
        Cut ([] ++ ([] ++ '.' :: rest.takeWhile Char.isDigit))
          (rest.dropWhile Char.isDigit) :=
      .point .none nofun hDigits hEnds
    rw [hCut]
    exact ⟨by simp [hSplit], hShape⟩
  · rcases sign_of_startsNumber hStarts hPoint with
      ⟨negative, sign, lead, hSign, hLead, hFirst⟩
    have hWhole :
        ∀ d ∈ lead ++ rest.takeWhile Char.isDigit,
          d.isDigit = true := by
      intro d hMem
      rcases List.mem_append.mp hMem with hMem | hMem
      · exact hLead d hMem
      · exact hDigits d hMem
    have hFront :
        ∀ cs : List Char, c :: cs = sign ++ (lead ++ cs) := by
      intro cs
      rw [← List.append_assoc, hFirst]
      rfl
    unfold cutNumber
    dsimp only
    rw [if_neg (by simpa using hPoint)]
    split
    · rename_i fraction hTail
      have hFraction :
          ∀ d ∈ fraction.takeWhile Char.isDigit,
            d.isDigit = true :=
        fun d => isDigit_of_mem_takeWhile
      rw [hTail] at hSplit
      refine ⟨?_, ?_⟩
      · simp only [List.cons_append, List.append_assoc,
          List.takeWhile_append_dropWhile, hSplit]
      · dsimp only
        rw [List.cons_append, hFront, ← List.append_assoc lead]
        exact
          .point hSign hWhole hFraction
            (endsDigits_dropWhile fraction)
    · rename_i hTail
      refine ⟨by simp [hSplit], ?_⟩
      dsimp only
      rw [hFront]
      exact .whole hSign hWhole (by simp [← hFront]) hEnds hTail

------------------------------------------------------------
-- Values of numbers
------------------------------------------------------------

/- A digit is its own lowercase. -/
theorem toLower_of_isDigit
    {c : Char}
    (hDigit : c.isDigit = true) :
    c.toLower = c := by
  simp only [Char.isDigit, Bool.and_eq_true, decide_eq_true_eq]
    at hDigit
  unfold Char.toLower
  rw [dif_neg]
  rintro ⟨hLow, _⟩
  have hBelow := UInt32.le_trans hLow hDigit.2
  exact absurd hBelow (by decide)

/- The text goes on with a digit or a point, if it goes on. -/
def StartsDigits
    (cs : List Char) : Prop :=
  ∀ c rest, cs = c :: rest → c.isDigit = true ∨ c = '.'

/- A text with digits in front goes on with one. -/
theorem startsDigits_append
    {digits more : List Char}
    (hDigits : ∀ c ∈ digits, c.isDigit = true)
    (hSome : digits ≠ []) :
    StartsDigits (digits ++ more) := by
  intro c rest hCons
  cases digits with
  | nil => exact absurd rfl hSome
  | cons d ds =>
      cases hCons
      exact .inl (hDigits c (.head _))

/- So does one with digits and a point in front. -/
theorem startsDigits_point
    {whole more : List Char}
    (hWhole : ∀ c ∈ whole, c.isDigit = true) :
    StartsDigits (whole ++ '.' :: more) := by
  cases whole with
  | nil =>
      intro c rest hCons
      cases hCons
      exact .inr rfl
  | cons d ds =>
      exact startsDigits_append hWhole (List.cons_ne_nil d ds)

/- Digits and points are no letters. -/
theorem toLower_of_startsDigits
    {c : Char}
    (hFirst : c.isDigit = true ∨ c = '.') :
    c.toLower ≠ 'i' ∧ c.toLower ≠ 'n' := by
  rcases hFirst with hDigit | rfl
  · rw [toLower_of_isDigit hDigit]
    refine ⟨?_, ?_⟩ <;>
    · rintro rfl
      exact absurd hDigit (by decide)
  · decide

/- What follows the sign of a number is read as digits. -/
theorem read?_sign
    {negative : Bool}
    {sign body : List Char}
    (hSign : Sign negative sign)
    (hBody : StartsDigits body) :
    Numeral.read? (sign ++ body) =
      Numeral.readDigits? negative body := by
  have hCut : cutSign (sign ++ body) = (negative, body) := by
    cases hSign with
    | plus => rfl
    | minus => rfl
    | none =>
        cases body with
        | nil => rfl
        | cons c rest =>
            have hFirst := hBody c rest rfl
            unfold cutSign
            split
            · rename_i hPlus
              cases hPlus
              exact absurd hFirst (by decide)
            · rename_i hMinus
              cases hMinus
              exact absurd hFirst (by decide)
            · rfl
  unfold Numeral.read?
  rw [hCut]
  cases body with
  | nil => rfl
  | cons c rest =>
      have hLetter := toLower_of_startsDigits (hBody c rest rfl)
      have hInf :
          ∀ cs, (c :: rest).map Char.toLower ≠ 'i' :: cs := by
        intro cs hSame
        exact hLetter.1 (List.cons.inj hSame).1
      have hNan :
          ∀ cs, (c :: rest).map Char.toLower ≠ 'n' :: cs := by
        intro cs hSame
        exact hLetter.2 (List.cons.inj hSame).1
      dsimp only
      rw [if_neg, if_neg]
      · rw [beq_iff_eq]
        exact hNan ['a', 'n']
      · rw [Bool.or_eq_true, beq_iff_eq, beq_iff_eq, not_or]
        exact
          ⟨hInf ['n', 'f'], hInf ['n', 'f', 'i', 'n', 'i', 't', 'y']⟩

section

variable [Scalar α]

/- Value of a number without a point. -/
theorem read?_whole
    {negative : Bool}
    {sign digits : List Char}
    (hSign : Sign negative sign)
    (hDigits : ∀ c ∈ digits, c.isDigit = true) :
    (Scalar.read? (sign ++ digits) : Option α) =
      if digits = [] then none
      else
        some (Scalar.ofDecimal negative (natOfDigits digits) 0) := by
  have hBody : StartsDigits digits := by
    intro c rest hCons
    exact .inl (hDigits c (by simp [hCons]))
  have hCut := cut_digits hDigits (show EndsDigits [] from nofun)
  rw [List.append_nil] at hCut
  unfold Scalar.read?
  rw [read?_sign hSign hBody]
  unfold Numeral.readDigits?
  rw [hCut.1, hCut.2]
  cases digits with
  | nil => rfl
  | cons d ds => simp [exponent?, Scalar.ofNumeral]

/- Value of a number with a point. -/
theorem read?_point
    {negative : Bool}
    {sign whole fraction : List Char}
    (hSign : Sign negative sign)
    (hWhole : ∀ c ∈ whole, c.isDigit = true)
    (hFraction : ∀ c ∈ fraction, c.isDigit = true) :
    (Scalar.read? (sign ++ (whole ++ '.' :: fraction)) : Option α) =
      if whole ++ fraction = [] then none
      else
        some
          (Scalar.ofDecimal negative (natOfDigits (whole ++ fraction))
            (-fraction.length)) := by
  have hBody : StartsDigits (whole ++ '.' :: fraction) := by
    intro c rest hCons
    cases whole with
    | nil =>
        cases hCons
        exact .inr rfl
    | cons d ds =>
        cases hCons
        exact .inl (hWhole c (.head _))
  have hPoint : EndsDigits ('.' :: fraction) := by
    intro c rest hCons
    cases hCons
    rfl
  have hCut := cut_digits hWhole hPoint
  have hCutFraction :=
    cut_digits hFraction (show EndsDigits [] from nofun)
  rw [List.append_nil] at hCutFraction
  unfold Scalar.read?
  rw [read?_sign hSign hBody]
  unfold Numeral.readDigits?
  rw [hCut.1, hCut.2]
  simp only [hCutFraction.1, hCutFraction.2]
  cases whole <;> cases fraction <;>
    simp [exponent?, Scalar.ofNumeral]

/- The value of a number is read. -/
theorem NumberText.read?_eq
    {text : List Char}
    {value : α}
    (hNumber : NumberText text value) :
    Scalar.read? text = some value := by
  cases hNumber with
  | whole hSign hDigits hSome =>
      rw [read?_whole hSign hDigits, if_neg hSome]
  | point hSign hWhole hFraction hSome =>
      rw [read?_point hSign hWhole hFraction, if_neg hSome]

/- A cut text that can be read is a number. -/
theorem Cut.numberText
    {text tail : List Char}
    {value : α}
    (hCut : Cut text tail)
    (hRead : Scalar.read? text = some value) :
    NumberText text value := by
  cases hCut with
  | whole hSign hDigits =>
      rw [read?_whole hSign hDigits] at hRead
      split at hRead <;> cases hRead
      exact .whole hSign hDigits ‹_›
  | point hSign hWhole hFraction =>
      rw [read?_point hSign hWhole hFraction] at hRead
      split at hRead <;> cases hRead
      exact .point hSign hWhole hFraction ‹_›

------------------------------------------------------------
-- The longest number
------------------------------------------------------------

/- Both signs are the same if no sign comes after them. -/
theorem sign_unique
    {negative negative' : Bool}
    {sign sign' body body' : List Char}
    (hSign : Sign negative sign)
    (hSign' : Sign negative' sign')
    (hBody : sign = [] → StartsDigits body)
    (hBody' : StartsDigits body')
    (hSame : sign ++ body = sign' ++ body') :
    sign = sign' ∧ body = body' := by
  cases hSign <;> cases hSign' <;> simp at hSame
  · exact ⟨rfl, hSame⟩
  · exact absurd (hBody rfl _ _ hSame) (by decide)
  · exact absurd (hBody rfl _ _ hSame) (by decide)
  · exact absurd (hBody' _ _ hSame.symm) (by decide)
  · exact ⟨rfl, hSame⟩
  · exact absurd (hBody' _ _ hSame.symm) (by decide)
  · exact ⟨rfl, hSame⟩

/- A number that the text begins with is a part of the cut one. -/
theorem Cut.number_prefix
    {text tail text' tail' : List Char}
    {value : α}
    (hCut : Cut text tail)
    (hNumber : NumberText text' value)
    (hSame : text ++ tail = text' ++ tail') :
    ∃ left, text = text' ++ left ∧ tail' = left ++ tail := by
  cases hCut with
  | @whole _ sign digits _ hSign hDigits hSome hEnds hPoint =>
      cases hNumber with
      | @whole _ sign' digits' hSign' hDigits' hSome' =>
          rw [List.append_assoc, List.append_assoc] at hSame
          rcases sign_unique hSign hSign'
            (fun hNone =>
              startsDigits_append hDigits
                (by simpa [hNone] using hSome))
            (startsDigits_append hDigits' hSome') hSame with
              ⟨rfl, hBody⟩
          rcases digits_prefix hDigits' hEnds hBody.symm with
            ⟨left, rfl, hTail⟩
          exact ⟨left, by simp, hTail⟩
      | @point _ sign' whole' fraction' hSign' hWhole' _ _ =>
          rw [List.append_assoc, List.append_assoc, List.append_assoc]
            at hSame
          rcases sign_unique hSign hSign'
            (fun hNone =>
              startsDigits_append hDigits
                (by simpa [hNone] using hSome))
            (startsDigits_point hWhole') hSame with ⟨rfl, hBody⟩
          rcases digits_prefix hWhole' hEnds hBody.symm with
            ⟨left, hWhole, hTail⟩
          cases left with
          | nil => exact absurd hTail.symm (hPoint _)
          | cons c left =>
              exact
                absurd (hDigits c (by simp [hWhole]))
                  (isDigit_of_point hTail)
  | @point _ sign whole fraction _ hSign hWhole hFraction hEnds =>
      cases hNumber with
      | @whole _ sign' digits' hSign' hDigits' hSome' =>
          rw [List.append_assoc, List.append_assoc, List.append_assoc]
            at hSame
          rcases sign_unique hSign hSign'
            (fun _ => startsDigits_point hWhole)
            (startsDigits_append hDigits' hSome') hSame with
              ⟨rfl, hBody⟩
          rcases digits_prefix hDigits' (endsDigits_point _)
            hBody.symm with ⟨left, rfl, hTail⟩
          exact ⟨left ++ '.' :: fraction, by simp, by simp [hTail]⟩
      | @point _ sign' whole' fraction' hSign' hWhole' hFraction' _ =>
          rw [List.append_assoc, List.append_assoc, List.append_assoc,
            List.append_assoc] at hSame
          rcases sign_unique hSign hSign'
            (fun _ => startsDigits_point hWhole)
            (startsDigits_point hWhole') hSame with ⟨rfl, hBody⟩
          rcases digits_prefix hWhole' (endsDigits_point _)
            hBody.symm with ⟨left, rfl, hTail⟩
          cases left with
          | nil =>
              rcases digits_prefix hFraction' hEnds
                (List.cons.inj hTail).2 with ⟨more, rfl, hMore⟩
              exact ⟨more, by simp, hMore⟩
          | cons c left =>
              exact
                absurd (hWhole c (by simp)) (isDigit_of_point hTail)

/- A number has a digit. -/
theorem NumberText.exists_digit
    {text : List Char}
    {value : α}
    (hNumber : NumberText text value) :
    ∃ c ∈ text, c.isDigit = true := by
  cases hNumber with
  | whole _ hDigits hSome =>
      rcases List.exists_mem_of_ne_nil _ hSome with ⟨c, hMem⟩
      exact ⟨c, by simp [hMem], hDigits c hMem⟩
  | point _ hWhole hFraction hSome =>
      rcases List.exists_mem_of_ne_nil _ hSome with ⟨c, hMem⟩
      rcases List.mem_append.mp hMem with hMem | hMem
      · exact ⟨c, by simp [hMem], hWhole c hMem⟩
      · exact ⟨c, by simp [hMem], hFraction c hMem⟩

/- A sign has no digit. -/
theorem isDigit_of_mem_sign
    {negative : Bool}
    {sign : List Char}
    {c : Char}
    (hSign : Sign negative sign)
    (hMem : c ∈ sign) :
    c.isDigit = false := by
  cases hSign with
  | none => cases hMem
  | plus => rw [List.mem_singleton.mp hMem]; rfl
  | minus => rw [List.mem_singleton.mp hMem]; rfl

/- A cut text with a digit is a number. -/
theorem Cut.exists_number
    {text tail : List Char}
    (hCut : Cut text tail)
    (hDigit : ∃ c ∈ text, c.isDigit = true) :
    ∃ value : α, NumberText text value := by
  rcases hDigit with ⟨c, hMem, hIs⟩
  cases hCut with
  | @whole negative sign digits _ hSign hDigits =>
      refine ⟨_, .whole hSign hDigits ?_⟩
      rintro rfl
      rw [List.append_nil] at hMem
      rw [isDigit_of_mem_sign hSign hMem] at hIs
      cases hIs
  | @point negative sign whole fraction _ hSign hWhole hFraction =>
      refine ⟨_, .point hSign hWhole hFraction ?_⟩
      intro hNone
      rcases List.append_eq_nil_iff.mp hNone with ⟨rfl, rfl⟩
      rcases List.mem_append.mp hMem with hMem | hMem
      · rw [isDigit_of_mem_sign hSign hMem] at hIs
        cases hIs
      · simp only [List.nil_append, List.mem_singleton] at hMem
        subst hMem
        cases hIs

/-
  The cut number is the longest one that the text begins with,
  and the only one that cannot go on.
-/
theorem cutNumber_eq
    {c : Char}
    {rest text tail : List Char}
    {value : α}
    (hStarts : startsNumber c = true)
    (hNumber : NumberText text value)
    (hLongest :
      ∀ (more left : List Char) (other : α),
        tail = more ++ left → NumberText (text ++ more) other →
          more = [])
    (hSame : c :: rest = text ++ tail) :
    cutNumber c rest = (text, tail) := by
  rcases cutNumber_cut hStarts rest with ⟨hSplit, hCut⟩
  rcases hCut.number_prefix hNumber (hSplit.trans hSame) with
    ⟨more, hText, hTail⟩
  have hDigit := hNumber.exists_digit
  have hCutDigit :
      ∃ d ∈ (cutNumber c rest).1, d.isDigit = true := by
    rcases hDigit with ⟨d, hMem, hIs⟩
    exact ⟨d, by simp [hText, hMem], hIs⟩
  rcases hCut.exists_number (α := α) hCutDigit with ⟨other, hOther⟩
  rw [hText] at hOther
  have hNone := hLongest more _ other hTail hOther
  rw [hNone, List.append_nil] at hText
  rw [hNone, List.nil_append] at hTail
  exact Prod.ext hText hTail.symm

/- A number begins with a character that numbers begin with. -/
theorem NumberText.startsNumber
    {text : List Char}
    {value : α}
    (hNumber : NumberText text value) :
    ∃ c rest,
      text = c :: rest ∧ PathData.startsNumber c = true := by
  have hDigit :
      ∀ {c : Char}, c.isDigit = true →
        PathData.startsNumber c = true := by
    intro c hIs
    simp [PathData.startsNumber, hIs]
  cases hNumber with
  | @whole _ _ digits hSign hDigits hSome =>
      cases hSign with
      | plus => exact ⟨_, _, rfl, rfl⟩
      | minus => exact ⟨_, _, rfl, rfl⟩
      | none =>
          cases digits with
          | nil => exact absurd rfl hSome
          | cons d ds =>
              exact ⟨d, ds, rfl, hDigit (hDigits d (.head _))⟩
  | @point _ _ whole _ hSign hWhole _ _ =>
      cases hSign with
      | plus => exact ⟨_, _, rfl, rfl⟩
      | minus => exact ⟨_, _, rfl, rfl⟩
      | none =>
          cases whole with
          | nil => exact ⟨_, _, rfl, rfl⟩
          | cons d ds =>
              exact ⟨d, _, rfl, hDigit (hWhole d (.head _))⟩

------------------------------------------------------------
-- Scanning
------------------------------------------------------------

/- Where an ending stands. -/
def Ending.offset : Ending → Nat
| .complete offset => offset
| .malformed offset _ => offset

omit [Scalar α] in
/- Where the next of some tokens stands, or what ends them. -/
def nextOffset
    (ending : Ending) :
    List (Placed α) → Nat
| [] => ending.offset
| p :: _ => p.offset

@[simp] theorem byteLength_cons
    (c : Char)
    (cs : List Char) :
    byteLength (c :: cs) = c.utf8Size + byteLength cs :=
  rfl

@[simp] theorem byteLength_nil :
    byteLength [] = 0 :=
  rfl

/- Bytes of characters that stand one after the other. -/
@[simp] theorem byteLength_append
    (cs ds : List Char) :
    byteLength (cs ++ ds) = byteLength cs + byteLength ds := by
  induction cs with
  | nil =>
      rw [List.nil_append, byteLength_nil, Nat.zero_add]
  | cons c cs ih =>
      rw [List.cons_append, byteLength_cons, byteLength_cons, ih,
        Nat.add_assoc]

/-
  Tokens that come first, if they are valid, are read from the
  text in front of the next one; all of them are read from the
  whole text if that is complete.
-/
def Lexemes.Shows
    (lexemes : Lexemes α)
    (offset : Nat)
    (cs : List Char) : Prop :=
  ∀ front back,
    lexemes.tokens = front ++ back →
      (∀ p ∈ front, ∀ c, p.token ≠ .stray c) →
        ∃ before after,
          cs = before ++ after ∧
            Lexes cs (front.map Placed.token) after ∧
            nextOffset lexemes.ending back =
              offset + byteLength before ∧
            (back = [] →
              (∃ o, lexemes.ending = .complete o) → after = [])

namespace Lexemes.Shows

/- No tokens are read from the front of a text. -/
theorem none
    {offset : Nat}
    {cs : List Char}
    {ending : Ending}
    (hOffset : ending.offset = offset)
    (hEnd : (∃ o, ending = .complete o) → cs = []) :
    Shows (α := α) ⟨[], ending⟩ offset cs := by
  rintro front back hSplit _
  rcases List.append_eq_nil_iff.mp hSplit.symm with ⟨rfl, rfl⟩
  exact ⟨[], cs, rfl, .done cs, by simpa [nextOffset], fun _ => hEnd⟩

/- One more token is read from the text in front. -/
theorem token
    {offset : Nat}
    (text : List Char)
    {tail : List Char}
    {t : Token α}
    {following : Lexemes α}
    (hRest : following.Shows (offset + byteLength text) tail)
    (hToken :
      (∀ c, t ≠ .stray c) →
        ∀ ts after,
          Lexes tail ts after → Lexes (text ++ tail) (t :: ts) after) :
    Shows
      { following with tokens := ⟨t, offset⟩ :: following.tokens }
      offset (text ++ tail) := by
  intro front back hSplit hValid
  cases front with
  | nil =>
      rw [List.nil_append] at hSplit
      subst hSplit
      exact ⟨[], text ++ tail, rfl, .done _, rfl, nofun⟩
  | cons p front =>
      rcases List.cons.inj hSplit with ⟨rfl, hTail⟩
      rcases hRest front back hTail
        (fun q hMem => hValid q (.tail _ hMem)) with
        ⟨before, after, hCut, hLexes, hOffset, hEnd⟩
      refine
        ⟨text ++ before, after, by rw [hCut, List.append_assoc],
          hToken (hValid _ (.head _)) _ _ hLexes, ?_, hEnd⟩
      rw [byteLength_append, ← Nat.add_assoc]
      exact hOffset

/- A blank goes before all tokens. -/
theorem blank
    {offset : Nat}
    {c : Char}
    {cs : List Char}
    {lexemes : Lexemes α}
    (hBlank : isSpace c = true)
    (hRest : lexemes.Shows (offset + 1) cs) :
    lexemes.Shows offset (c :: cs) := by
  have hIs : c = ' ' ∨ c = '	' := by
    simpa [isSpace] using hBlank
  have hSize : c.utf8Size = 1 := by
    rcases hIs with rfl | rfl <;> rfl
  intro front back hSplit hValid
  rcases hRest front back hSplit hValid with
    ⟨before, after, rfl, hLexes, hOffset, hEnd⟩
  refine ⟨c :: before, after, rfl, .blank hIs hLexes, ?_, hEnd⟩
  rw [byteLength_cons, hSize, ← Nat.add_assoc]
  exact hOffset

end Lexemes.Shows

/- A number that is cut and read is the next token. -/
theorem lexes_cutNumber
    {c : Char}
    {rest after : List Char}
    {value : α}
    {ts : List (Token α)}
    (hStarts : startsNumber c = true)
    (hRead : Scalar.read? (cutNumber c rest).1 = some value)
    (hRest : Lexes (cutNumber c rest).2 ts after) :
    Lexes (c :: rest) (.number value :: ts) after := by
  rcases cutNumber_cut hStarts rest with ⟨hSplit, hCut⟩
  rw [← hSplit]
  refine .number (hCut.numberText hRead) ?_ hRest
  intro more left other hTail hMore
  have hSame :
      (cutNumber c rest).1 ++ (cutNumber c rest).2 =
        ((cutNumber c rest).1 ++ more) ++ left := by
    rw [hTail, List.append_assoc]
  rcases hCut.number_prefix hMore hSame with ⟨further, hText, _⟩
  rw [List.append_assoc] at hText
  exact
    (List.append_eq_nil_iff.mp
      (List.self_eq_append_right.mp hText)).1

/- Scanning reads the tokens of a text. -/
theorem scan_shows
    (offset : Nat)
    (cs : List Char) :
    (scan (α := α) offset cs).Shows offset cs := by
  induction offset, cs using scan.induct (α := α) with
  | case1 offset =>
      rw [scan]
      exact .none rfl fun _ => rfl
  | case2 offset c rest hBlank ih =>
      rw [scan, if_pos hBlank]
      exact ih.blank hBlank
  | case3 offset c rest hBlank hStarts number hRead =>
      rw [scan, if_neg hBlank, if_pos hStarts]
      simp only [number] at hRead
      simp only [hRead]
      exact .none rfl nofun
  | case4 offset c rest hBlank hStarts number value hRead _ ih =>
      rw [scan, if_neg hBlank, if_pos hStarts]
      simp only [number] at hRead ih
      simp only [hRead]
      rw [← (cutNumber_cut hStarts rest).1]
      refine .token _ ih fun _ ts after hRest => ?_
      rw [(cutNumber_cut hStarts rest).1]
      exact lexes_cutNumber hStarts hRead hRest
  | case5 offset c rest hBlank hStarts ih =>
      rw [scan, if_neg hBlank, if_neg hStarts]
      dsimp only
      have hSize : byteLength [c] = c.utf8Size := by simp
      rw [← hSize] at ih ⊢
      refine .token [c] ih fun hValid ts after hRest => ?_
      revert hValid
      split
      · rename_i hComma
        rw [beq_iff_eq] at hComma
        subst hComma
        exact fun _ => .comma hRest
      · split
        · rename_i hLetter
          exact fun _ => .command hLetter hRest
        · exact fun hValid => absurd rfl (hValid c)

/- Where the letters stand. -/
theorem range_of_isAlpha
    {c : Char}
    (hLetter : c.isAlpha = true) :
    (65 ≤ c.toNat ∧ c.toNat ≤ 90)
      ∨ (97 ≤ c.toNat ∧ c.toNat ≤ 122) := by
  rcases Bool.or_eq_true_iff.mp hLetter with hUpper | hLower
  · exact .inl (of_decide_eq_true hUpper)
  · rcases Bool.and_eq_true_iff.mp hLower with ⟨hLow, hHigh⟩
    exact .inr ⟨of_decide_eq_true hLow, of_decide_eq_true hHigh⟩

/- A letter is no digit. -/
theorem isDigit_of_isAlpha
    {c : Char}
    (hLetter : c.isAlpha = true) :
    c.isDigit = false := by
  rw [Bool.eq_false_iff]
  intro hDigit
  rcases Bool.and_eq_true_iff.mp hDigit with ⟨hLow, hHigh⟩
  have hLow' : 48 ≤ c.toNat := of_decide_eq_true hLow
  have hHigh' : c.toNat ≤ 57 := of_decide_eq_true hHigh
  have hRange := range_of_isAlpha hLetter
  omega

/- A letter is scanned as a command. -/
theorem scanned_of_isAlpha
    {c : Char}
    (hLetter : c.isAlpha = true) :
    isSpace c = false ∧ startsNumber c = false ∧ c ≠ ',' := by
  have hNot : ∀ d : Char, d.isAlpha = false → c ≠ d := by
    rintro d hOther rfl
    rw [hOther] at hLetter
    cases hLetter
  simp [isSpace, startsNumber, isDigit_of_isAlpha hLetter,
    hNot ' ' rfl, hNot '	' rfl, hNot '+' rfl, hNot '-' rfl,
    hNot '.' rfl, hNot ',' rfl]

/- A number does not begin with a blank. -/
theorem isSpace_of_startsNumber
    {c : Char}
    (hStarts : startsNumber c = true) :
    isSpace c = false := by
  cases hSpace : isSpace c with
  | false => rfl
  | true =>
      have hIs : c = ' ' ∨ c = '	' := by
        simpa [isSpace] using hSpace
      rcases hIs with rfl | rfl <;> cases hStarts

/-
  Tokens that are read from the front of a text are scanned first,
  and what is left is scanned then.
-/
theorem Lexes.scanned
    {cs rest : List Char}
    {ts : List (Token α)}
    (hLexes : Lexes cs ts rest)
    (offset : Nat) :
    ∃ before ps,
      cs = before ++ rest ∧ ps.map Placed.token = ts ∧
        ts.length ≤ before.length ∧
        scan offset cs =
          { scan (α := α) (offset + byteLength before) rest with
            tokens :=
              ps
                ++ (scan (offset + byteLength before)
                  rest).tokens } := by
  induction hLexes generalizing offset with
  | done cs => exact ⟨[], [], rfl, rfl, Nat.le_refl 0, rfl⟩
  | @blank c cs _ ts hBlank _ ih =>
      have hIs : isSpace c = true ∧ c.utf8Size = 1 := by
        rcases hBlank with rfl | rfl <;> exact ⟨rfl, rfl⟩
      rcases ih (offset + 1) with
        ⟨before, ps, rfl, hTokens, hLength, hScan⟩
      refine
        ⟨c :: before, ps, rfl, hTokens, Nat.le_succ_of_le hLength, ?_⟩
      rw [scan, if_pos hIs.1, hScan, byteLength_cons, hIs.2,
        Nat.add_assoc]
  | comma _ ih =>
      rcases ih (offset + ','.utf8Size) with
        ⟨before, ps, rfl, hTokens, hLength, hScan⟩
      refine
        ⟨',' :: before, ⟨.comma, offset⟩ :: ps, rfl,
          by rw [List.map_cons, hTokens], Nat.succ_le_succ hLength, ?_⟩
      rw [scan, if_neg (by decide), if_neg (by decide)]
      dsimp only
      rw [hScan, byteLength_cons, ← Nat.add_assoc]
      rfl
  | @command c cs _ ts hLetter _ ih =>
      rcases scanned_of_isAlpha hLetter with ⟨hSpace, hStarts, hComma⟩
      rcases ih (offset + c.utf8Size) with
        ⟨before, ps, rfl, hTokens, hLength, hScan⟩
      refine
        ⟨c :: before, ⟨.command c, offset⟩ :: ps, rfl,
          by rw [List.map_cons, hTokens], Nat.succ_le_succ hLength, ?_⟩
      rw [scan, if_neg (by simp [hSpace]), if_neg (by simp [hStarts])]
      dsimp only
      rw [hScan, byteLength_cons, ← Nat.add_assoc]
      simp [hComma, hLetter]
  | @number text cs _ value ts hNumber hLongest _ ih =>
      rcases hNumber.startsNumber with ⟨c, more, rfl, hStarts⟩
      have hCut : cutNumber c (more ++ cs) = (c :: more, cs) :=
        cutNumber_eq hStarts hNumber hLongest rfl
      have hSpace := isSpace_of_startsNumber hStarts
      rcases ih (offset + byteLength (c :: more)) with
        ⟨before, ps, rfl, hTokens, hLength, hScan⟩
      refine
        ⟨c :: more ++ before, ⟨.number value, offset⟩ :: ps,
          (List.append_assoc _ _ _).symm,
          by rw [List.map_cons, hTokens], ?_, ?_⟩
      · rw [List.length_cons, List.length_append, List.length_cons]
        omega
      · rw [List.cons_append, scan, if_neg (by simp [hSpace]),
          if_pos hStarts]
        simp only [hCut, hNumber.read?_eq]
        rw [hScan, byteLength_append, ← Nat.add_assoc]
        rfl

/- The tokens of a text are scanned. -/
theorem scan_of_lexes
    {cs : List Char}
    {ts : List (Token α)}
    (hLexes : Lexes cs ts [])
    (offset : Nat) :
    (scan offset cs).tokens.map Placed.token = ts ∧
      ∃ o, (scan (α := α) offset cs).ending = .complete o := by
  rcases hLexes.scanned offset with ⟨before, ps, -, rfl, -, hScan⟩
  rw [hScan, scan]
  exact ⟨by rw [List.append_nil], _, rfl⟩

/- Tokens are read one after the other. -/
theorem Lexes.append
    {cs mid rest : List Char}
    {ts us : List (Token α)}
    (hFirst : Lexes cs ts mid)
    (hNext : Lexes mid us rest) :
    Lexes cs (ts ++ us) rest := by
  induction hFirst with
  | done => exact hNext
  | blank hBlank _ ih => exact .blank hBlank (ih hNext)
  | comma _ ih => exact .comma (ih hNext)
  | command hLetter _ ih => exact .command hLetter (ih hNext)
  | number hNumber hLongest _ ih =>
      exact .number hNumber hLongest (ih hNext)

------------------------------------------------------------
-- Written tokens
------------------------------------------------------------

/- Some text is read as the token. -/
def Token.Written : Token α → Prop
| .number value => ∃ text, NumberText text value
| .comma => True
| .command letter => letter.isAlpha = true
| .stray _ => False

/- Tokens that have been read are those of some text. -/
theorem Lexes.written
    {cs rest : List Char}
    {ts : List (Token α)}
    (hLexes : Lexes cs ts rest) :
    ∀ t ∈ ts, t.Written := by
  induction hLexes with
  | done cs => exact nofun
  | blank _ _ ih => exact ih
  | comma _ ih => exact List.forall_mem_cons.mpr ⟨trivial, ih⟩
  | command hLetter _ ih =>
      exact List.forall_mem_cons.mpr ⟨hLetter, ih⟩
  | number hNumber _ _ ih =>
      exact List.forall_mem_cons.mpr ⟨⟨_, hNumber⟩, ih⟩

/- No space is part of a number. -/
theorem NumberText.space_not_mem
    {text : List Char}
    {value : α}
    (hNumber : NumberText text value) :
    ' ' ∉ text := by
  have hSign :
      ∀ {negative : Bool} {sign : List Char},
        Sign negative sign → ' ' ∉ sign := by
    intro negative sign hSign
    cases hSign <;> decide
  have hDigits :
      ∀ {digits : List Char},
        (∀ c ∈ digits, c.isDigit = true) → ' ' ∉ digits :=
    fun hDigits hMem => absurd (hDigits ' ' hMem) (by decide)
  cases hNumber with
  | whole hFirst hWhole _ =>
      rw [List.mem_append, not_or]
      exact ⟨hSign hFirst, hDigits hWhole⟩
  | point hFirst hWhole hFraction _ =>
      rw [List.mem_append, List.mem_append, List.mem_cons, not_or,
        not_or, not_or]
      exact
        ⟨hSign hFirst, hDigits hWhole, by decide, hDigits hFraction⟩

/- Written tokens can be written one after the other. -/
theorem exists_lexes
    {ts : List (Token α)}
    (hWritten : ∀ t ∈ ts, t.Written) :
    ∃ cs, Lexes cs ts [] := by
  induction ts with
  | nil => exact ⟨[], .done []⟩
  | cons t ts ih =>
      rw [List.forall_mem_cons] at hWritten
      rcases ih hWritten.2 with ⟨cs, hLexes⟩
      cases t with
      | comma => exact ⟨',' :: cs, .comma hLexes⟩
      | command letter =>
          exact ⟨letter :: cs, .command hWritten.1 hLexes⟩
      | stray c => exact absurd hWritten.1 id
      | number value =>
          rcases hWritten.1 with ⟨text, hNumber⟩
          refine
            ⟨text ++ ' ' :: cs,
              .number hNumber ?_ (.blank (.inl rfl) hLexes)⟩
          -- A space ends the number, so no more of the text is read.
          intro more tail other hSplit hMore
          cases more with
          | nil => rfl
          | cons c more =>
              rw [List.cons_append, List.cons.injEq] at hSplit
              rw [← hSplit.1] at hMore
              exact
                absurd
                  (List.mem_append_right text List.mem_cons_self)
                  hMore.space_not_mem

end

end FixedPage.PathData
