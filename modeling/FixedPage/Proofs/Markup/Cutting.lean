import FixedPage.Markup.Token
import Mathlib.Data.List.Basic
import Mathlib.Tactic.SplitIfs

/-
  This file shows that the bytes of a part are cut one token after
  the other, and that a cut is local: a token that ends before some
  place of a part is cut in the same way when the part stops there.
  So the cuts in front of a token are all the cuts of the bytes in
  front of it.

  Main declarations:
    * `extent`
    * `cut?_take`
    * `cuts_eq`
    * `cut?_of_cuts`
    * `cuts_take`
-/

namespace FixedPage.Markup

------------------------------------------------------------
-- Searching
------------------------------------------------------------

variable {bytes content rest : List UInt8} {n size : Nat}

/- A short text stands in front of bytes wherever they stop. -/
theorem isPrefixOf_take
    {text : List UInt8}
    (hLength : text.length ≤ n) :
    text.isPrefixOf (bytes.take n) = text.isPrefixOf bytes := by
  rw [Bool.eq_iff_iff, List.isPrefixOf_iff_prefix,
    List.isPrefixOf_iff_prefix, List.prefix_take_iff,
    and_iff_left hLength]

/- What does not stand in front of bytes never does. -/
theorem isPrefixOf_take_of_not
    {text : List UInt8}
    (hNot : ¬ text.isPrefixOf bytes = true) :
    ¬ text.isPrefixOf (bytes.take n) = true := by
  rw [List.isPrefixOf_iff_prefix] at hNot ⊢
  exact fun hPrefix => hNot (hPrefix.trans (List.take_prefix n bytes))

/- Where a text occurs depends on the bytes up to its end. -/
theorem before?_take
    {stop : List UInt8}
    (hFound : before? stop bytes = some content)
    (hSize : content.length + stop.length ≤ n)
    (hStop : stop ≠ []) :
    before? stop (bytes.take n) = some content := by
  induction bytes generalizing content n with
  | nil => cases hFound
  | cons b rest ih =>
      have hSome := List.length_pos_iff.mpr hStop
      obtain ⟨m, rfl⟩ := Nat.exists_eq_add_one_of_ne_zero
        (n := n) (by omega)
      rw [before?] at hFound
      split at hFound
      · rename_i hHere
        cases hFound
        rw [List.length_nil, Nat.zero_add] at hSize
        rw [← isPrefixOf_take hSize] at hHere
        rw [List.take_succ_cons] at hHere ⊢
        rw [before?, if_pos hHere]
      · rename_i hNot
        obtain ⟨more, hMore, rfl⟩ := Option.map_eq_some_iff.mp hFound
        rw [List.length_cons] at hSize
        have hNot := isPrefixOf_take_of_not (n := m + 1) hNot
        rw [List.take_succ_cons] at hNot ⊢
        rw [before?, if_neg hNot, ih hMore (by omega)]
        rfl

/- Where a tag ends depends on the bytes up to there. -/
theorem tagContent?_take
    {quote? : Option UInt8}
    (hFound : tagContent? quote? bytes = some content)
    (hSize : content.length < n) :
    tagContent? quote? (bytes.take n) = some content := by
  induction bytes generalizing quote? content n with
  | nil => cases hFound
  | cons b rest ih =>
      obtain ⟨m, rfl⟩ := Nat.exists_eq_add_one_of_ne_zero
        (n := n) (by omega)
      rw [List.take_succ_cons]
      cases quote? with
      | some quote =>
          obtain ⟨more, hMore, rfl⟩ := Option.map_eq_some_iff.mp hFound
          have hLater := ih hMore (Nat.lt_of_succ_lt_succ hSize)
          exact Option.map_eq_some_iff.mpr ⟨more, hLater, rfl⟩
      | none =>
          rw [tagContent?] at hFound ⊢
          split at hFound
          · rename_i hEnd
            rw [if_pos hEnd]
            exact hFound
          · rename_i hNot
            obtain ⟨more, hMore, rfl⟩ :=
              Option.map_eq_some_iff.mp hFound
            rw [if_neg hNot, ih hMore (Nat.lt_of_succ_lt_succ hSize)]
            rfl

/- The bracket that ends a tag stands behind its content. -/
theorem eq_of_tagContent?
    {quote? : Option UInt8}
    (hFound : tagContent? quote? bytes = some content) :
    ∃ rest, bytes = content ++ byte '>' :: rest := by
  induction bytes generalizing quote? content with
  | nil => cases hFound
  | cons b rest ih =>
      unfold tagContent? at hFound
      split at hFound
      · obtain ⟨more, hMore, rfl⟩ := Option.map_eq_some_iff.mp hFound
        obtain ⟨after, rfl⟩ := ih hMore
        exact ⟨after, rfl⟩
      · split at hFound
        · rename_i hEnd
          cases hFound
          exact ⟨rest, by rw [eq_of_beq hEnd, List.nil_append]⟩
        · obtain ⟨more, hMore, rfl⟩ := Option.map_eq_some_iff.mp hFound
          obtain ⟨after, rfl⟩ := ih hMore
          exact ⟨after, rfl⟩

/- Where a document type ends depends on the bytes up to there. -/
theorem doctypeContent?_take
    {depth : Nat}
    (hFound : doctypeContent? depth bytes = some content)
    (hSize : content.length < n) :
    doctypeContent? depth (bytes.take n) = some content := by
  induction bytes generalizing depth content n with
  | nil => cases hFound
  | cons b rest ih =>
      obtain ⟨m, rfl⟩ := Nat.exists_eq_add_one_of_ne_zero
        (n := n) (by omega)
      have hLater :
          ∀ {depth : Nat},
            (doctypeContent? depth rest).map (b :: ·) = some content →
              (doctypeContent? depth (rest.take m)).map (b :: ·) =
                some content := by
        intro depth hLater
        obtain ⟨more, hMore, rfl⟩ := Option.map_eq_some_iff.mp hLater
        rw [ih hMore (Nat.lt_of_succ_lt_succ hSize)]
        rfl
      rw [List.take_succ_cons]
      unfold doctypeContent? at hFound ⊢
      split at hFound
      · rename_i hOpen
        rw [if_pos hOpen]
        exact hLater hFound
      · rename_i hNot
        rw [if_neg hNot]
        split at hFound
        · rename_i hClose
          rw [if_pos hClose]
          cases depth with
          | zero => exact hFound
          | succ outer => exact hLater hFound
        · rename_i hOther
          rw [if_neg hOther]
          exact hLater hFound

------------------------------------------------------------
-- Tokens
------------------------------------------------------------

variable {token : Token}

/- A declaration is cut from the bytes up to its end. -/
theorem cutDeclaration_take
    (hCut : cutDeclaration rest = ⟨.ok token, size⟩)
    (hSize : size ≤ n + 2) :
    cutDeclaration (rest.take n) = ⟨.ok token, size⟩ := by
  unfold cutDeclaration at hCut
  split_ifs at hCut with hComment hDash hData hBracket hLetter
  · -- A comment.
    split at hCut
    · rename_i content hFound
      cases hCut
      have hInside :=
        before?_take (n := n - 2) hFound
          (by change content.length + 3 ≤ _; omega) (by decide)
      rw [← isPrefixOf_take (n := n) (by change 2 ≤ n; omega)]
        at hComment
      unfold cutDeclaration
      rw [if_pos hComment, List.drop_take, hInside]
    · cases hCut
  · cases hCut
  · -- Character data.
    split at hCut
    · rename_i content hFound
      cases hCut
      have hInside :=
        before?_take (n := n - 7) hFound
          (by change content.length + 3 ≤ _; omega) (by decide)
      rw [← isPrefixOf_take (n := n) (by change 7 ≤ n; omega)]
        at hData
      unfold cutDeclaration
      rw [if_neg (isPrefixOf_take_of_not hComment),
        if_neg (isPrefixOf_take_of_not hDash), if_pos hData,
        List.drop_take, hInside]
    · cases hCut
  · cases hCut
  · -- A document type.
    split at hCut
    · cases hCut
    · rename_i content hFound
      split_ifs at hCut with hKeyword hNoName
      · cases hCut
      · cases hCut
        have hInside := doctypeContent?_take (n := n) hFound (by omega)
        unfold cutDeclaration
        rw [if_neg (isPrefixOf_take_of_not hComment),
          if_neg (isPrefixOf_take_of_not hDash),
          if_neg (isPrefixOf_take_of_not hData),
          if_neg (isPrefixOf_take_of_not hBracket),
          List.map_take, List.take_take,
          Nat.min_eq_left (by omega), if_pos hLetter, hInside]
        dsimp only
        rw [if_pos hKeyword, if_neg hNoName]
      · cases hCut
  · cases hCut

/- The name of an end tag loses the spaces behind it. -/
def endName
    (name : List UInt8) : List UInt8 :=
  if (trimEnd name).isEmpty then name else trimEnd name

/- The token of a tag, from what stands between its brackets. -/
def tokenOf
    (content : List UInt8) : Token :=
  if content.head? = some (byte '/') then
    .endTag (endName (content.drop 1))
  else if content.getLast? = some (byte '/') then
    .emptyTag content.dropLast
  else .startTag content

/- What starts like a tag is cut as one. -/
theorem cutMarkup_tag
    {b : UInt8}
    {more : List UInt8}
    (hBang : b ≠ byte '!')
    (hMark : b ≠ byte '?') :
    cutMarkup (b :: more) =
      match tagContent? none (b :: more) with
      | none => .fault .unclosedTag
      | some content => ⟨.ok (tokenOf content), content.length + 2⟩ := by
  simp only [cutMarkup, beq_iff_eq, hBang, hMark, if_false]
  cases hContent : tagContent? none (b :: more) with
  | none => rfl
  | some content =>
      obtain ⟨rest, hBytes⟩ := eq_of_tagContent? hContent
      dsimp only [tokenOf, endName]
      cases content with
      | nil =>
          cases hBytes
          rfl
      | cons c content =>
          cases hBytes
          simp only [List.head?_cons, Option.some.injEq]
          split_ifs <;> rfl

/- An instruction is skipped, and cut from the bytes up to its end. -/
theorem cutInstruction_take
    {more : List UInt8}
    (hCut : cutMarkup (byte '?' :: more) = ⟨.ok token, size⟩)
    (hSize : size ≤ n + 2) :
    token = .skipped ∧
      cutMarkup (byte '?' :: more.take n) = ⟨.ok token, size⟩ := by
  have hMark : (byte '?' == byte '!') = false := by decide
  simp only [cutMarkup, hMark, BEq.rfl, if_true, Bool.false_eq_true,
    if_false] at hCut ⊢
  cases more with
  | nil => cases hCut
  | cons c more =>
      dsimp only at hCut
      split_ifs at hCut with hClosed
      · cases hCut
      · split at hCut
        · rename_i content hFound
          cases hCut
          have hInside :=
            before?_take (n := n) hFound
              (by change content.length + 2 ≤ n; omega) (by decide)
          obtain ⟨m, rfl⟩ := Nat.exists_eq_add_one_of_ne_zero
            (n := n) (by omega)
          rw [List.take_succ_cons] at hInside ⊢
          dsimp only
          rw [if_neg hClosed, hInside]
          exact ⟨rfl, rfl⟩
        · cases hCut

/- Markup is cut from the bytes up to its end. -/
theorem cutMarkup_take
    (hCut : cutMarkup rest = ⟨.ok token, size⟩)
    (hSize : size ≤ n + 1) :
    cutMarkup (rest.take n) = ⟨.ok token, size⟩ := by
  cases rest with
  | nil => cases hCut
  | cons b more =>
      by_cases hBang : b = byte '!'
      · subst hBang
        change cutDeclaration more = _ at hCut
        -- A token of one byte would be cut from no bytes at all.
        cases n with
        | zero =>
            have hNone := cutDeclaration_take (n := 0) hCut (by omega)
            cases hNone
        | succ m => exact cutDeclaration_take hCut hSize
      · by_cases hMark : b = byte '?'
        · subst hMark
          cases n with
          | zero =>
              have hNone := (cutInstruction_take (n := 0) hCut (by omega)).2
              cases hNone
          | succ m => exact (cutInstruction_take hCut hSize).2
        · rw [cutMarkup_tag hBang hMark] at hCut
          cases hContent : tagContent? none (b :: more) with
          | none =>
              rw [hContent] at hCut
              cases hCut
          | some content =>
              rw [hContent] at hCut
              cases hCut
              have hInside :=
                tagContent?_take (n := n) hContent (by omega)
              obtain ⟨m, rfl⟩ := Nat.exists_eq_add_one_of_ne_zero
                (n := n) (by omega)
              rw [List.take_succ_cons] at hInside ⊢
              rw [cutMarkup_tag hBang hMark, hInside]

/- A reference is cut from the bytes up to its end. -/
theorem cutReference_take
    (hCut : cutReference rest = ⟨.ok token, size⟩)
    (hSize : size ≤ n + 1) :
    cutReference (rest.take n) = ⟨.ok token, size⟩ := by
  unfold cutReference at hCut ⊢
  dsimp only at hCut ⊢
  generalize hStops :
    (fun b => b != byte ';' && b != byte '&' && b != byte '<') = stops
      at hCut ⊢
  split at hCut
  · rename_i b more hDrop
    split_ifs at hCut with hEnd
    · cases hCut
      have hName :
          (rest.take n).takeWhile stops = rest.takeWhile stops := by
        rw [← List.take_takeWhile, List.take_of_length_le (by omega)]
      obtain ⟨m, hRest⟩ : ∃ m, n = (rest.takeWhile stops).length + (m + 1) :=
        ⟨n - (rest.takeWhile stops).length - 1, by omega⟩
      rw [hName, List.drop_take, hDrop, hRest, Nat.add_sub_cancel_left,
        List.take_succ_cons]
      dsimp only
      rw [if_pos hEnd]
    · cases hCut
  · cases hCut

------------------------------------------------------------
-- One cut
------------------------------------------------------------

/- Number of spaces in front of bytes. -/
def leadingSpaces
    (bytes : List UInt8) : Nat :=
  (bytes.takeWhile isSpace).length

/- The token that starts with a byte which is no space. -/
def cutFirst
    (b : UInt8)
    (rest : List UInt8) : Cut :=
  if b == byte '<' then cutMarkup rest
  else if b == byte '&' then cutReference rest
  else
    let content := rest.takeWhile fun c =>
      c != byte '<' && c != byte '&'
    ⟨.ok (.text (trimEnd (b :: content))), content.length + 1⟩

/- A token is cut off together with the spaces in front of it. -/
theorem cut?_eq
    (bytes : List UInt8) :
    cut? bytes =
      match bytes.drop (leadingSpaces bytes) with
      | [] => none
      | b :: rest =>
          some ⟨(cutFirst b rest).token,
            leadingSpaces bytes + (cutFirst b rest).size⟩ :=
  rfl

/- A token takes some bytes. -/
theorem cutFirst_pos
    {b : UInt8}
    (hCut : cutFirst b rest = ⟨.ok token, size⟩) :
    0 < size := by
  -- A token without bytes would be cut from no bytes at all.
  refine Nat.pos_of_ne_zero fun hZero => ?_
  subst hZero
  unfold cutFirst at hCut
  split_ifs at hCut
  · cases cutMarkup_take (n := 0) hCut (by omega)
  · cases cutReference_take (n := 0) hCut (by omega)
  · cases hCut

/- A token is cut from the bytes up to its end. -/
theorem cutFirst_take
    {b : UInt8}
    (hCut : cutFirst b rest = ⟨.ok token, size⟩)
    (hSize : size ≤ n + 1) :
    cutFirst b (rest.take n) = ⟨.ok token, size⟩ := by
  unfold cutFirst at hCut ⊢
  split_ifs at hCut ⊢
  · exact cutMarkup_take hCut hSize
  · exact cutReference_take hCut hSize
  · cases hCut
    rw [← List.take_takeWhile, List.take_of_length_le (by omega)]

/- Spaces in front of bytes are there wherever the bytes stop. -/
theorem leadingSpaces_take
    (bytes : List UInt8)
    (n : Nat) :
    leadingSpaces (bytes.take n) = min n (leadingSpaces bytes) := by
  unfold leadingSpaces
  rw [← List.take_takeWhile, List.length_take]

/- A cut that is no fault has a token in front. -/
theorem exists_of_cut?
    (hCut : cut? bytes = some ⟨.ok token, size⟩) :
    ∃ b rest length,
      bytes.drop (leadingSpaces bytes) = b :: rest ∧
        cutFirst b rest = ⟨.ok token, length⟩ ∧
          size = leadingSpaces bytes + length := by
  rw [cut?_eq] at hCut
  split at hCut
  · cases hCut
  · rename_i b rest hDrop
    injection hCut with hCut
    injection hCut with hToken hSize
    exact ⟨b, rest, (cutFirst b rest).size, hDrop,
      by rw [← hToken], hSize.symm⟩

/- A cut that is no fault takes some bytes. -/
theorem cut?_pos
    (hCut : cut? bytes = some ⟨.ok token, size⟩) :
    0 < size := by
  obtain ⟨b, rest, length, -, hFirst, rfl⟩ := exists_of_cut? hCut
  exact Nat.add_pos_right _ (cutFirst_pos hFirst)

/- Something is cut only where there are bytes. -/
theorem length_pos_of_cut?
    {cut : Cut}
    (hCut : cut? bytes = some cut) :
    0 < bytes.length := by
  cases bytes with
  | nil => cases hCut
  | cons b rest => exact Nat.succ_pos _

/- A token is cut in the same way wherever the bytes behind it stop. -/
theorem cut?_take
    (hCut : cut? bytes = some ⟨.ok token, size⟩)
    (hSize : size ≤ n) :
    cut? (bytes.take n) = some ⟨.ok token, size⟩ := by
  obtain ⟨b, rest, length, hDrop, hFirst, rfl⟩ := exists_of_cut? hCut
  have hSome := cutFirst_pos hFirst
  obtain ⟨m, rfl⟩ : ∃ m, n = leadingSpaces bytes + (m + 1) :=
    ⟨n - leadingSpaces bytes - 1, by omega⟩
  have hSpaces :
      leadingSpaces (bytes.take (leadingSpaces bytes + (m + 1))) =
        leadingSpaces bytes := by
    rw [leadingSpaces_take]
    omega
  rw [cut?_eq, hSpaces, List.drop_take, hDrop,
    Nat.add_sub_cancel_left, List.take_succ_cons]
  dsimp only
  rw [cutFirst_take hFirst (by omega)]

/- Nothing is cut from spaces. -/
theorem cut?_take_spaces
    (hSize : n ≤ leadingSpaces bytes) :
    cut? (bytes.take n) = none := by
  have hDrop :
      (bytes.take n).drop (leadingSpaces (bytes.take n)) = [] := by
    rw [leadingSpaces_take, Nat.min_eq_left hSize, List.drop_take,
      Nat.sub_self, List.take_zero]
  rw [cut?_eq, hDrop]

------------------------------------------------------------
-- All cuts
------------------------------------------------------------

/- Beyond the number of bytes, fuel makes no difference. -/
theorem cutAll_congr
    {fuel fuel' : Nat}
    (hFuel : bytes.length ≤ fuel)
    (hFuel' : bytes.length ≤ fuel') :
    cutAll fuel bytes = cutAll fuel' bytes := by
  have hEmpty : ∀ fuel, cutAll fuel [] = [] := fun fuel => by
    cases fuel <;> rfl
  induction fuel generalizing bytes fuel' with
  | zero =>
      rw [List.eq_nil_of_length_eq_zero (Nat.le_zero.mp hFuel), hEmpty,
        hEmpty]
  | succ fuel ih =>
      cases fuel' with
      | zero =>
          rw [List.eq_nil_of_length_eq_zero (Nat.le_zero.mp hFuel'),
            hEmpty, hEmpty]
      | succ fuel' =>
          unfold cutAll
          cases hCut : cut? bytes with
          | none => rfl
          | some found =>
              obtain ⟨token | token, size⟩ := found
              · rfl
              · have hSome := cut?_pos hCut
                have hRest : (bytes.drop size).length ≤ fuel := by
                  rw [List.length_drop]
                  omega
                have hRest' : (bytes.drop size).length ≤ fuel' := by
                  rw [List.length_drop]
                  omega
                dsimp only
                rw [ih hRest hRest']

/- The cuts of bytes are the first one and those behind it. -/
theorem cuts_eq
    (bytes : List UInt8) :
    cuts bytes =
      match cut? bytes with
      | none => []
      | some found =>
          match found.token with
          | .error _ => [found]
          | .ok _ => found :: cuts (bytes.drop found.size) := by
  rw [cuts, cutAll_congr (Nat.le_refl _) (Nat.le_succ _), cutAll]
  cases hCut : cut? bytes with
  | none => rfl
  | some found =>
      obtain ⟨token | token, size⟩ := found
      · rfl
      · dsimp only
        rw [cuts, cutAll_congr _ (Nat.le_refl _)]
        rw [List.length_drop]
        omega

/- Number of bytes that some cuts take. -/
def extent : List Cut → Nat
| [] => 0
| cut :: rest => cut.size + extent rest

@[simp] theorem extent_nil :
    extent [] = 0 :=
  rfl

@[simp] theorem extent_cons
    (cut : Cut)
    (cuts : List Cut) :
    extent (cut :: cuts) = cut.size + extent cuts :=
  rfl

/- A cut in front of others is the first one, and has a token. -/
theorem cut?_of_cuts_cons
    {cut : Cut}
    {more : List Cut}
    (hCuts : cuts bytes = cut :: more) :
    cut? bytes = some cut ∧
      (more = [] ∨ ∃ token, cut.token = .ok token) ∧
        ∀ token, cut.token = .ok token →
          cuts (bytes.drop cut.size) = more := by
  rw [cuts_eq] at hCuts
  split at hCuts
  · cases hCuts
  · rename_i found hCut
    split at hCuts
    · rename_i fault hFault
      cases hCuts
      refine ⟨hCut, .inl rfl, fun token hOk => ?_⟩
      rw [hFault] at hOk
      cases hOk
    · rename_i token hOk
      cases hCuts
      exact ⟨hCut, .inr ⟨token, hOk⟩, fun _ _ => rfl⟩

variable {cut : Cut} {front back : List Cut}

/- Each cut is the first one of the bytes behind those before it. -/
theorem cut?_of_cuts
    (hCuts : cuts bytes = front ++ cut :: back) :
    cut? (bytes.drop (extent front)) = some cut := by
  induction front generalizing bytes with
  | nil => exact (cut?_of_cuts_cons hCuts).1
  | cons first front ih =>
      obtain ⟨-, hNone | ⟨token, hOk⟩, hLater⟩ :=
        cut?_of_cuts_cons hCuts
      · cases List.append_eq_nil_iff.mp hNone |>.2
      · rw [extent_cons, ← List.drop_drop]
        exact ih (hLater token hOk)

/-
  The cuts in front of a token are those of the bytes in front of
  it, with or without the spaces that the token loses.
-/
theorem cuts_take
    (hCuts : cuts bytes = front ++ cut :: back)
    {spaces : Nat}
    (hSpaces :
      spaces ≤ leadingSpaces (bytes.drop (extent front))) :
    cuts (bytes.take (extent front + spaces)) = front := by
  induction front generalizing bytes with
  | nil =>
      rw [extent_nil, List.drop_zero] at hSpaces
      rw [cuts_eq, extent_nil, Nat.zero_add, cut?_take_spaces hSpaces]
  | cons first front ih =>
      obtain ⟨hCut, hNone | ⟨token, hOk⟩, hLater⟩ :=
        cut?_of_cuts_cons hCuts
      · cases List.append_eq_nil_iff.mp hNone |>.2
      · obtain ⟨_, size⟩ := first
        cases hOk
        rw [extent_cons, ← List.drop_drop] at hSpaces
        have hRest := ih (hLater token rfl) hSpaces
        have hFirst :=
          cut?_take (n := size + extent front + spaces) hCut (by omega)
        rw [cuts_eq, extent_cons, hFirst]
        dsimp only
        rw [List.drop_take, Nat.add_assoc, Nat.add_sub_cancel_left,
          hRest]

end FixedPage.Markup
