import FixedPage.Proofs.Glyph.Reading

/-
  This file shows that the clusters of a glyph run cut its text
  into pieces: no character is lost, shared or split, whatever
  counts the indices give. The cluster under way never reaches
  beyond the text that is left, and once the indices have ended
  the text is used up after finitely many glyphs.

  Main declarations:
    * `GlyphLayout.Partitions`
    * `Indices.Machine.Covers`
    * `Indices.Machine.Drains`
    * `Indices.Machine.glyphsLeft`
    * `layoutGlyphs_partitions`
-/

namespace FixedPage

------------------------------------------------------------
-- Pieces of a text
------------------------------------------------------------

/- Bytes are counted as a string counts them. -/
theorem utf8Length_eq
    (cs : List Char) :
    utf8Length cs = (String.ofList cs).utf8ByteSize := by
  induction cs with
  | nil => rfl
  | cons c cs ih =>
      have hOne : (String.ofList [c]).utf8ByteSize = c.utf8Size := by
        rw [← String.singleton_eq_ofList, String.utf8ByteSize_singleton]
      rw [← List.singleton_append, String.ofList_append,
        String.utf8ByteSize_append, hOne, ← ih]
      rfl

/- The bytes of some pieces are those of the text they make up. -/
theorem sum_utf8Length
    (pieces : List (List Char)) :
    (pieces.map utf8Length).sum =
      (String.ofList pieces.flatten).utf8ByteSize := by
  induction pieces with
  | nil => rfl
  | cons piece pieces ih =>
      rw [List.map_cons, List.sum_cons, ih, utf8Length_eq,
        List.flatten_cons, String.ofList_append,
        String.utf8ByteSize_append]

/- Pieces end between two characters. -/
theorem isValid_pieces
    (pieces more : List (List Char)) :
    String.Pos.Raw.IsValid (String.ofList (pieces ++ more).flatten)
      ⟨(pieces.map utf8Length).sum⟩ := by
  rw [String.Pos.Raw.isValid_iff_exists_append]
  refine ⟨String.ofList pieces.flatten, String.ofList more.flatten, ?_, ?_⟩
  · rw [← String.ofList_append, List.flatten_append]
  · rw [sum_utf8Length]
    rfl

/-
  The clusters of a layout are pieces of a text: together they
  are as long as the text, and each ends between two characters.
-/
structure GlyphLayout.Partitions
    {α : Type}
    (layout : GlyphLayout α)
    (text : String) : Prop where
  total :
    (layout.clusters.map TextCluster.bytes).sum = text.utf8ByteSize
  boundary :
    ∀ n, String.Pos.Raw.IsValid text
      ⟨((layout.clusters.take n).map TextCluster.bytes).sum⟩
  pieces :
    ∃ pieces : List (List Char),
      pieces.flatten = text.toList ∧
        layout.clusters.map TextCluster.bytes = pieces.map utf8Length

/- Clusters that are as long as the pieces of a text. -/
theorem GlyphLayout.Partitions.of_pieces
    {α : Type}
    {layout : GlyphLayout α}
    {text : String}
    {pieces : List (List Char)}
    (hText : pieces.flatten = text.toList)
    (hClusters :
      layout.clusters.map TextCluster.bytes = pieces.map utf8Length) :
    layout.Partitions text := by
  refine ⟨?_, fun n => ?_, pieces, hText, hClusters⟩
  · rw [hClusters, sum_utf8Length, hText, String.ofList_toList]
  · have hValid := isValid_pieces (pieces.take n) (pieces.drop n)
    rw [List.take_append_drop, hText, String.ofList_toList] at hValid
    rwa [List.map_take, hClusters, ← List.map_take]

/- A text without indices is cut into its characters. -/
theorem GlyphLayout.ofText_partitions
    {α : Type}
    [Scalar α]
    (f : ScaledFont α)
    (q : Placement α)
    (pen : Point α)
    (text : String) :
    (ofText f q pen text.toList).Partitions text := by
  have hClusters (cs : List Char) (pen : Point α) :
      (ofText f q pen cs).clusters.map TextCluster.bytes =
        (cs.map fun c => [c]).map utf8Length := by
    induction cs generalizing pen with
    | nil => rfl
    | cons c cs ih =>
        rw [ofText, cons, List.map_cons, List.map_cons, List.map_cons, ih]
        rfl
  refine .of_pieces ?_ (hClusters text.toList pen)
  induction text.toList with
  | nil => rfl
  | cons c cs ih => rw [List.map_cons, List.flatten_cons, ih]; rfl

namespace Indices

/- Code units reach into no more characters than there are. -/
theorem charsOfUnits_le
    (units : Nat)
    (text : List Char) : charsOfUnits units text ≤ text.length := by
  fun_induction charsOfUnits units text with
  | case1 => exact Nat.zero_le _
  | case2 => exact Nat.zero_le _
  | case3 n c rest ih =>
      rw [List.length_cons]
      omega

namespace Machine

variable {α : Type} [Scalar α]

------------------------------------------------------------
-- Text and clusters of a machine
------------------------------------------------------------

omit [Scalar α] in
/-
  The cluster under way fits into the text that is left, and
  the clusters so far are pieces of the text before it.
-/
structure Covers
    (text : List Char)
    (m : Machine α) : Prop where
  fits : m.chars ≤ m.text.length
  pieces :
    ∃ pieces : List (List Char),
      pieces.flatten ++ m.text = text ∧
        m.clusters.reverse.map TextCluster.bytes = pieces.map utf8Length

/- A token at the start of a field leaves text and clusters alone. -/
theorem dispatch_keeps
    {f : ScaledFont α}
    {q : Placement α}
    {m next : Machine α}
    {p : Placed α}
    (h : m.dispatch f q p = .ok next) :
    next = m.emit f q ∨
      next.text = m.text ∧ next.clusters = m.clusters ∧
        next.chars = m.chars := by
  simp only [dispatch] at h
  split at h
  case h_2 =>
    split at h <;> cases h
    exact .inr ⟨rfl, rfl, rfl⟩
  case h_4 =>
    cases h
    exact .inl rfl
  all_goals
    cases h
    try exact .inr ⟨rfl, rfl, rfl⟩

/-
  Only the end of an entry changes text or clusters, and only
  code units choose the characters of a cluster.
-/
theorem step_keeps
    {f : ScaledFont α}
    {q : Placement α}
    {m next : Machine α}
    {p : Placed α}
    (h : m.step f q p = .ok next) :
    next = m.emit f q ∨
      next.text = m.text ∧ next.clusters = m.clusters ∧
        (next.chars = m.chars ∨
          ∃ units, next.chars = charsOfUnits units m.text) := by
  simp only [step] at h
  split at h
  case h_1 =>
    cases h
    exact .inr ⟨rfl, rfl, .inr ⟨_, rfl⟩⟩
  case h_18 =>
    rcases dispatch_keeps h with hEmit | ⟨hText, hClusters, hChars⟩
    · exact .inl hEmit
    · exact .inr ⟨hText, hClusters, .inl hChars⟩
  -- what is refused, and the other fields of an entry
  all_goals
    cases h
    try exact .inr ⟨rfl, rfl, .inl rfl⟩

omit [Scalar α] in
/- The cluster that a glyph belongs to fits into the text. -/
theorem Covers.clusterChars_le
    {text : List Char}
    {m : Machine α}
    (h : m.Covers text) : m.clusterChars ≤ m.text.length := by
  unfold clusterChars
  split
  · exact Nat.min_le_right _ _
  · exact h.fits

omit [Scalar α] in
/- The text that is left is part of the whole text. -/
theorem Covers.length_le
    {text : List Char}
    {m : Machine α}
    (h : m.Covers text) : m.text.length ≤ text.length := by
  obtain ⟨pieces, hText, -⟩ := h.pieces
  rw [← hText, List.length_append]
  omega

/- A glyph placed leaves the text covered. -/
theorem Covers.emit
    {f : ScaledFont α}
    {q : Placement α}
    {text : List Char}
    {m : Machine α}
    (h : m.Covers text) : (m.emit f q).Covers text := by
  obtain ⟨pieces, hText, hClusters⟩ := h.pieces
  rcases Nat.lt_or_ge 1 m.remaining with hInner | hLast
  · have hKeeps := emit_inner f q hInner
    refine ⟨?_, pieces, by rw [hKeeps.text, hText], ?_⟩
    · rw [hKeeps.chars, hKeeps.text]
      exact h.clusterChars_le
    · rw [hKeeps.clusters, hClusters]
  · have hEnds := emit_last f q hLast
    refine ⟨?_, pieces ++ [m.text.take m.clusterChars], ?_, ?_⟩
    · rw [hEnds.chars]
      exact Nat.zero_le _
    · simp [hEnds.text, hText]
    · simp [hEnds.clusters, hClusters]

theorem Covers.take
    {f : ScaledFont α}
    {q : Placement α}
    {text : List Char}
    {m next : Machine α}
    {t : Token α}
    (h : m.Covers text)
    (hNext : m.take? f q t = some next) : next.Covers text := by
  rcases step_keeps (take?_eq_some_iff.1 hNext) with
    rfl | ⟨hText, hClusters, hChars⟩
  · exact h.emit
  · refine ⟨?_, by rw [hText, hClusters]; exact h.pieces⟩
    rw [hText]
    rcases hChars with hChars | ⟨units, hChars⟩
    · rw [hChars]
      exact h.fits
    · rw [hChars]
      exact charsOfUnits_le units m.text

/- Tokens leave the text covered. -/
theorem Covers.takeAll
    {f : ScaledFont α}
    {q : Placement α}
    {text : List Char}
    {m last : Machine α}
    {ts : List (Token α)}
    (h : m.Covers text)
    (hLast : m.takeAll? f q ts = some last) : last.Covers text := by
  induction ts generalizing m with
  | nil =>
      cases hLast
      exact h
  | cons t ts ih =>
      rw [takeAll?_cons] at hLast
      obtain ⟨next, hNext, hMore⟩ := Option.bind_eq_some_iff.1 hLast
      exact ih (h.take hNext) hMore

theorem covers_initial
    (q : Placement α)
    (text : List Char) : (initial q text).Covers text :=
  ⟨Nat.zero_le _, [], rfl, rfl⟩

------------------------------------------------------------
-- End of the data
------------------------------------------------------------

/- Some glyphs placed one after the other use up the text. -/
inductive Drains
    (f : ScaledFont α)
    (q : Placement α) : Nat → Machine α → Machine α → Prop
  | done
      {m : Machine α}
      (hText : m.text = []) :
      Drains f q 0 m m
  | place
      {glyphs : Nat}
      {m last : Machine α}
      (hText : m.text ≠ [])
      (hRest : Drains f q glyphs (m.emit f q) last) :
      Drains f q (glyphs + 1) m last

omit [Scalar α] in
/-
  Glyphs that the text left gets: those that the cluster under
  way still has to come, at least one, and one for each
  character after it.
-/
def glyphsLeft
    (m : Machine α) : Nat :=
  if m.text = [] then 0
  else max 1 m.remaining + (m.text.length - m.clusterChars)

/- A glyph placed is one glyph less to place. -/
theorem glyphsLeft_emit
    (f : ScaledFont α)
    (q : Placement α)
    {m : Machine α}
    (hText : m.text ≠ []) :
    m.glyphsLeft = (m.emit f q).glyphsLeft + 1 := by
  have hChars := clusterChars_pos hText
  rw [glyphsLeft, if_neg hText]
  rcases Nat.lt_or_ge 1 m.remaining with hInner | hLast
  · have hKeeps := emit_inner f q hInner
    rw [glyphsLeft, hKeeps.text, if_neg hText, hKeeps.remaining,
      hKeeps.clusterChars]
    omega
  · have hEnds := emit_last f q hLast
    rw [glyphsLeft, hEnds.text, hEnds.remaining,
      clusterChars_of_zero hEnds.chars, hEnds.text]
    split
    · rename_i hNil
      rw [List.drop_eq_nil_iff] at hNil
      omega
    · rename_i hMore
      rw [List.drop_eq_nil_iff] at hMore
      rw [List.length_drop]
      omega

/- The text left is used up by the glyphs that it gets. -/
theorem drains
    (f : ScaledFont α)
    (q : Placement α)
    (m : Machine α) : Drains f q m.glyphsLeft m (m.drain f q) := by
  fun_induction drain f q m with
  | case1 m hText =>
      rw [glyphsLeft, if_pos hText]
      exact .done hText
  | case2 m hText _ ih =>
      rw [glyphsLeft_emit f q hText]
      exact .place hText ih

/- No text is left in the end, and it is covered. -/
theorem Covers.drains
    {f : ScaledFont α}
    {q : Placement α}
    {text : List Char}
    {glyphs : Nat}
    {m last : Machine α}
    (h : m.Covers text)
    (hDrains : Drains f q glyphs m last) :
    last.Covers text ∧ last.text = [] := by
  induction hDrains with
  | done hText => exact ⟨h, hText⟩
  | place _ _ ih => exact ih h.emit

theorem Covers.lastEntry
    {f : ScaledFont α}
    {q : Placement α}
    {text : List Char}
    {m : Machine α}
    (h : m.Covers text) : (m.lastEntry f q).Covers text := by
  unfold Machine.lastEntry
  split
  · exact h.emit
  · exact h

/- The clusters of the layout are pieces of the whole text. -/
theorem Covers.finish
    {f : ScaledFont α}
    {q : Placement α}
    {text : List Char}
    {m : Machine α}
    (h : m.Covers text) :
    ∃ pieces : List (List Char),
      pieces.flatten = text ∧
        (m.finish f q).clusters.map TextCluster.bytes =
          pieces.map utf8Length := by
  obtain ⟨hLast, hNil⟩ := h.lastEntry.drains ((m.lastEntry f q).drains f q)
  obtain ⟨pieces, hText, hClusters⟩ := hLast.pieces
  rw [hNil, List.append_nil] at hText
  exact ⟨pieces, hText, hClusters⟩

end Machine

end Indices

------------------------------------------------------------
-- Glyph runs
------------------------------------------------------------

variable {α : Type} [Scalar α]

/-
  Whatever tokens a machine has taken, the cluster under way
  fits into the text that is left, which is used up by finitely
  many glyphs; and the clusters of a glyph run that is laid out
  are pieces of its text.
-/
theorem layoutGlyphs_partitions
    (f : ScaledFont α)
    (q : Placement α)
    (text : String)
    (indices? : Option String) :
    (∀ (ts : List (Indices.Token α)) (m : Indices.Machine α),
      (Indices.Machine.initial q text.toList).takeAll? f q ts = some m →
        m.Covers text.toList ∧
          Indices.Machine.Drains f q (m.lastEntry f q).glyphsLeft
            (m.lastEntry f q) ((m.lastEntry f q).drain f q)) ∧
    ∀ layout, layoutGlyphs f q text indices? = .ok layout →
      layout.Partitions text := by
  have hCovers (ts : List (Indices.Token α)) (m : Indices.Machine α)
      (hTaken :
        (Indices.Machine.initial q text.toList).takeAll? f q ts = some m) :
      m.Covers text.toList :=
    (Indices.Machine.covers_initial q text.toList).takeAll hTaken
  refine ⟨fun ts m hTaken => ⟨hCovers ts m hTaken, Indices.Machine.drains f q _⟩, ?_⟩
  intro layout hLayout
  cases hIndices : indices?.filter (fun indices => !indices.isEmpty) with
  | none =>
      simp only [layoutGlyphs, hIndices] at hLayout
      split at hLayout <;> cases hLayout
      exact GlyphLayout.ofText_partitions f q q.origin text
  | some indices =>
      simp only [layoutGlyphs, hIndices] at hLayout
      split at hLayout <;> cases hLayout
      rename_i hLayout
      obtain ⟨ts, last, -, hTaken, -, rfl⟩ :=
        Indices.layout_eq_ok_iff.1 hLayout
      obtain ⟨pieces, hText, hClusters⟩ := (hCovers ts last hTaken).finish
      exact .of_pieces hText hClusters

section Surrogates

open Indices

/- The tokens of "(1:1)5;(9:1)6". -/
def surrogateTokens : List (Token ℚ) :=
  [.openCluster, .number 1, .colon, .number 1, .closeCluster, .number 5,
    .semicolon, .openCluster, .number 9, .colon, .number 1, .closeCluster,
    .number 6]

/-
  A cluster that ends inside a surrogate pair takes both of its
  units, one that is too long the text that is left.
-/
theorem layoutGlyphs_surrogates :
    let q : Placement ℚ := ⟨⟨0, 0⟩, false, false⟩
    let layout : GlyphLayout ℚ :=
      ⟨[⟨5, ⟨0, 0⟩⟩, ⟨6, ⟨1, 0⟩⟩], [⟨4, 1⟩, ⟨1, 1⟩]⟩
    (∃ m,
      (Machine.initial q "𝐀b".toList).takeAll? unitFont q surrogateTokens =
          some m ∧
        m.Covers "𝐀b".toList ∧
          Machine.Drains unitFont q (m.lastEntry unitFont q).glyphsLeft
            (m.lastEntry unitFont q)
            ((m.lastEntry unitFont q).drain unitFont q)) ∧
      layoutGlyphs unitFont q "𝐀b" (some "(1:1)5;(9:1)6") = .ok layout ∧
      layout.Partitions "𝐀b" := by
  intro q layout
  have hCuts : Cuts "(1:1)5;(9:1)6".toList surrogateTokens :=
    ⟨by decide +kernel, 13, by decide +kernel⟩
  have hLayout :
      layoutGlyphs unitFont q "𝐀b" (some "(1:1)5;(9:1)6") = .ok layout := by
    rw [layoutGlyphs_some_eq_ok_iff (by decide), layout_eq_ok_iff]
    refine ⟨surrogateTokens, _, hCuts, rfl, rfl, ?_⟩
    rw [Machine.finish_eq,
      Machine.drain_of_nil unitFont q (by decide +kernel)]
    decide +kernel
  have hPartitions :=
    layoutGlyphs_partitions unitFont q "𝐀b" (some "(1:1)5;(9:1)6")
  exact ⟨⟨_, rfl, hPartitions.1 surrogateTokens _ rfl⟩, hLayout,
    hPartitions.2 layout hLayout⟩

end Surrogates

end FixedPage
