import FixedPage.Proofs.Glyph.Reading

/-
  This file relates the characters of glyph indices to their
  tokens. Every semicolon is a token, as no number has one in
  it, so texts put together with a semicolon between them are
  cut into the tokens of one and then those of the other.

  Main declarations:
    * `Lexes`
    * `cuts_iff_lexes`
    * `Cuts.append`
    * `Cuts.length_entries`
-/

namespace FixedPage

namespace Indices

------------------------------------------------------------
-- Numbers in front of a semicolon
------------------------------------------------------------

/- Digits end at a semicolon. -/
theorem cutDigits_semicolon
    (cs more : List Char) :
    cutDigits (cs ++ ';' :: more) =
      ((cutDigits cs).1, (cutDigits cs).2 ++ ';' :: more) := by
  induction cs with
  | nil => rfl
  | cons c cs ih =>
      simp only [cutDigits, List.cons_append, List.takeWhile_cons,
        List.dropWhile_cons, Prod.mk.injEq] at ih ⊢
      split <;> simp_all

/- Only a point starts a fraction. -/
theorem cutFraction_of_ne
    {c : Char}
    (h : c ≠ '.')
    (cs : List Char) : cutFraction (c :: cs) = ([], c :: cs) := by
  unfold cutFraction
  split
  · rename_i hPoint
    exact absurd (List.cons.inj hPoint).1 h
  · rfl

/- Fractions end at a semicolon. -/
theorem cutFraction_semicolon
    (cs more : List Char) :
    cutFraction (cs ++ ';' :: more) =
      ((cutFraction cs).1, (cutFraction cs).2 ++ ';' :: more) := by
  cases cs with
  | nil => rfl
  | cons c cs =>
      by_cases hPoint : c = '.'
      · subst hPoint
        simp only [List.cons_append, cutFraction, cutDigits_semicolon]
      · rw [List.cons_append, cutFraction_of_ne hPoint,
          cutFraction_of_ne hPoint]
        rfl

/- Exponents end at a semicolon. -/
theorem cutExponent_semicolon
    (cs more : List Char) :
    cutExponent (cs ++ ';' :: more) =
      ((cutExponent cs).1, (cutExponent cs).2 ++ ';' :: more) := by
  rcases cs with _ | ⟨c, _ | ⟨s, cs⟩⟩
  · rfl
  · simp only [List.cons_append, List.nil_append, cutExponent]
    split <;> rfl
  · have hDigits := cutDigits_semicolon (s :: cs) more
    simp only [List.cons_append] at hDigits ⊢
    simp only [cutExponent, cutDigits_semicolon, hDigits]
    split
    · split <;> rfl
    · rfl

/- Numbers end at a semicolon. -/
theorem cutNumber_semicolon
    (c : Char)
    (cs more : List Char) :
    cutNumber c (cs ++ ';' :: more) =
      ((cutNumber c cs).1, (cutNumber c cs).2 ++ ';' :: more) := by
  simp only [cutNumber, cutDigits_semicolon, cutFraction_semicolon,
    cutExponent_semicolon]

------------------------------------------------------------
-- Semicolons after a number
------------------------------------------------------------

/- No semicolon is among digits. -/
theorem count_cutDigits
    (cs : List Char) :
    (cutDigits cs).2.count ';' = cs.count ';' := by
  induction cs with
  | nil => rfl
  | cons c cs ih =>
      rw [cutDigits, List.dropWhile_cons]
      split
      · rename_i hDigit
        have hNe : c ≠ ';' := by
          rintro rfl
          cases hDigit
        rw [List.count_cons_of_ne hNe]
        exact ih
      · rfl

theorem count_cutFraction
    (cs : List Char) :
    (cutFraction cs).2.count ';' = cs.count ';' := by
  unfold cutFraction
  split
  · rw [count_cutDigits, List.count_cons_of_ne (by decide)]
  · rfl

theorem count_cutExponent
    (cs : List Char) :
    (cutExponent cs).2.count ';' = cs.count ';' := by
  unfold cutExponent
  split
  · rename_i c rest
    split
    · rename_i hLetter
      have hNe : c ≠ ';' := by
        rintro rfl
        cases hLetter
      split
      · rename_i s digits
        split
        · rename_i hSign
          have hNe' : s ≠ ';' := by
            rintro rfl
            cases hSign
          rw [count_cutDigits, List.count_cons_of_ne hNe,
            List.count_cons_of_ne hNe']
        · rw [count_cutDigits, List.count_cons_of_ne hNe]
      · rw [List.count_cons_of_ne hNe]
    · rfl
  · rfl

/- No semicolon is part of a number. -/
theorem count_cutNumber
    {c : Char}
    (hStart : startsNumber c = true)
    (cs : List Char) :
    (cutNumber c cs).2.count ';' = (c :: cs).count ';' := by
  have hNe : c ≠ ';' := by
    rintro rfl
    cases hStart
  simp only [cutNumber, count_cutExponent, count_cutFraction,
    count_cutDigits, List.count_cons_of_ne hNe]

------------------------------------------------------------
-- Tokens of a text
------------------------------------------------------------

variable {α : Type} [Scalar α]

/- A text is cut into tokens. -/
inductive Lexes : List Char → List (Token α) → Prop
  | nil :
      Lexes [] []
  | number
      {c : Char}
      {cs : List Char}
      {x : α}
      {ts : List (Token α)}
      (hStart : startsNumber c = true)
      (hValue :
        (Scalar.read? (cutNumber c cs).1).filter Scalar.isFinite = some x)
      (hRest : Lexes (cutNumber c cs).2 ts) :
      Lexes (c :: cs) (.number x :: ts)
  | sign
      {c : Char}
      {cs : List Char}
      {ts : List (Token α)}
      (hStart : startsNumber c = false)
      (hRest : Lexes cs ts) :
      Lexes (c :: cs) (.ofChar c :: ts)

/- Texts are cut alike from whatever offset on. -/
theorem lexes_iff_scan
    {cs : List Char}
    {ts : List (Token α)}
    (offset : Nat) :
    Lexes cs ts ↔
      (scan offset cs).tokens.map Placed.token = ts ∧
        ∃ last, (scan (α := α) offset cs).ending = .complete last := by
  fun_induction scan (α := α) offset cs generalizing ts with
  | case1 offset =>
      constructor
      · rintro ⟨⟩
        exact ⟨rfl, offset, rfl⟩
      · rintro ⟨rfl, -⟩
        exact .nil
  | case2 offset c rest hStart number =>
      rename_i hValue
      constructor
      · rintro (_ | ⟨-, hSome, -⟩ | ⟨hSign, -⟩)
        · rw [hValue] at hSome
          cases hSome
        · rw [hStart] at hSign
          cases hSign
      · rintro ⟨-, last, hLast⟩
        cases hLast
  | case3 offset c rest hStart number x hValue hLength following =>
      rename_i ih
      constructor
      · rintro (_ | ⟨-, hSome, hRest⟩ | ⟨hSign, -⟩)
        · rw [hValue, Option.some.injEq] at hSome
          subst hSome
          obtain ⟨hTokens, hEnding⟩ := ih.1 hRest
          exact ⟨by rw [List.map_cons, hTokens], hEnding⟩
        · rw [hStart] at hSign
          cases hSign
      · rintro ⟨rfl, hEnding⟩
        exact .number hStart hValue (ih.2 ⟨rfl, hEnding⟩)
  | case4 offset c rest hStart following =>
      rename_i ih
      have hSign : startsNumber c = false := by simpa using hStart
      constructor
      · rintro (_ | ⟨hNumber, -, -⟩ | ⟨-, hRest⟩)
        · exact absurd hNumber hStart
        · obtain ⟨hTokens, hEnding⟩ := ih.1 hRest
          exact ⟨by rw [List.map_cons, hTokens], hEnding⟩
      · rintro ⟨rfl, hEnding⟩
        exact .sign hSign (ih.2 ⟨rfl, hEnding⟩)

theorem cuts_iff_lexes
    {cs : List Char}
    {ts : List (Token α)} : Cuts cs ts ↔ Lexes cs ts :=
  (lexes_iff_scan 0).symm

/- Empty indices are cut into no tokens. -/
theorem Cuts.nil
    {ts : List (Token α)}
    (h : Cuts [] ts) : ts = [] := by
  rw [← h.1, scan]
  rfl

/- All others begin with one. -/
theorem Cuts.ne_nil
    {cs : List Char}
    {ts : List (Token α)}
    (h : Cuts cs ts)
    (hSome : cs ≠ []) : ts ≠ [] := by
  cases cuts_iff_lexes.1 h with
  | nil => exact absurd rfl hSome
  | number => exact List.cons_ne_nil _ _
  | sign => exact List.cons_ne_nil _ _

/- Texts with a semicolon between them are cut one after the other. -/
theorem Lexes.append
    {cs more : List Char}
    {ts us : List (Token α)}
    (h : Lexes cs ts)
    (hMore : Lexes more us) :
    Lexes (cs ++ ';' :: more) (ts ++ .semicolon :: us) := by
  induction h with
  | nil => exact .sign rfl hMore
  | number hStart hValue _ ih =>
      rw [List.cons_append, List.cons_append]
      refine .number hStart ?_ ?_
      · rw [cutNumber_semicolon]
        exact hValue
      · rw [cutNumber_semicolon]
        exact ih
  | sign hStart _ ih => exact .sign hStart ih

theorem Cuts.append
    {cs more : List Char}
    {ts us : List (Token α)}
    (h : Cuts cs ts)
    (hMore : Cuts more us) :
    Cuts (cs ++ ';' :: more) (ts ++ .semicolon :: us) :=
  cuts_iff_lexes.2 ((cuts_iff_lexes.1 h).append (cuts_iff_lexes.1 hMore))

/- Semicolons alone are tokens alone. -/
theorem cuts_semicolons
    (k : Nat) :
    Cuts (List.replicate k ';')
      (List.replicate k (.semicolon : Token α)) := by
  rw [cuts_iff_lexes]
  induction k with
  | zero => exact .nil
  | succ k ih => exact .sign rfl ih

omit [Scalar α] in
/- Only a semicolon stands for a semicolon. -/
theorem isSemicolon_ofChar
    (c : Char) :
    (Token.ofChar c : Token α).isSemicolon = (c == ';') := by
  unfold Token.ofChar
  split <;> simp_all [Token.isSemicolon]

/- Each semicolon of a text is a token. -/
theorem Lexes.countP
    {cs : List Char}
    {ts : List (Token α)}
    (h : Lexes cs ts) :
    ts.countP Token.isSemicolon = cs.count ';' := by
  induction h with
  | nil => rfl
  | number hStart hValue hRest ih =>
      rw [List.countP_cons_of_neg (by simp [Token.isSemicolon]), ih,
        count_cutNumber hStart]
  | sign hStart hRest ih =>
      rw [List.countP_cons, ih, isSemicolon_ofChar, List.count_cons]

omit [Scalar α] in
/- There is one entry more than there are semicolons. -/
theorem length_entries
    (ts : List (Token α)) :
    (entries ts).length = ts.countP Token.isSemicolon + 1 := by
  induction ts with
  | nil => rfl
  | cons t ts ih =>
      rw [entries, List.splitOnP_cons_eq_if_modifyHead, List.countP_cons]
      rw [entries] at ih
      split <;> simp [ih]

theorem Cuts.length_entries
    {cs : List Char}
    {ts : List (Token α)}
    (h : Cuts cs ts) : (entries ts).length = cs.count ';' + 1 := by
  rw [Indices.length_entries, (cuts_iff_lexes.1 h).countP]

end Indices

end FixedPage
