import FixedPage.Proofs.Glyph.Partition
import FixedPage.Proofs.Glyph.Scanning

/-
  This file counts the glyphs of a run. Each entry gets at most
  one, and the text that the entries leave gets one for each
  character, except that its first cluster may have glyphs to
  come: their number is the one written in the indices, so a
  run can have more glyphs than entries and characters. It has
  exactly when that cluster has more glyphs to come than
  characters have been taken.

  Main declarations:
    * `Indices.entryCount`
    * `Indices.largestCount`
    * `Indices.KeepsToText`
    * `layoutGlyphs_glyphs_le_iff`
-/

namespace FixedPage

namespace Indices

------------------------------------------------------------
-- Numbers of the indices
------------------------------------------------------------

/- The entries between semicolons; empty indices have none. -/
def entryCount
    (indices : String) : Nat :=
  if indices.isEmpty then 0 else indices.toList.count ';' + 1

variable {α : Type} [Scalar α]

/- The largest glyph count that an entry gives, at least one. -/
def largestCount
    (ts : List (Token α)) : Nat :=
  ((entries ts).filterMap glyphCount?).foldr max 1

/- Tokens of glyph indices. -/
def tokensOf
    (α : Type)
    [Scalar α]
    (indices : String) : List (Token α) :=
  (scan 0 indices.toList).tokens.map Placed.token

/-
  When the entries have got their glyphs, the cluster under way
  has no more glyphs to come than characters have been taken,
  its own included.
-/
def KeepsToText
    (f : ScaledFont α)
    (q : Placement α)
    (text : List Char)
    (ts : List (Token α)) : Prop :=
  ∃ m, (Machine.initial q text).takeAll? f q ts = some m ∧
    ((m.lastEntry f q).text ≠ [] →
      (m.lastEntry f q).remaining + (m.lastEntry f q).text.length ≤
        text.length + (m.lastEntry f q).clusterChars)

------------------------------------------------------------
-- Glyphs to come
------------------------------------------------------------

omit [Scalar α] in
/- A countdown never counts down from more than it was given. -/
theorem Countdown.entries_remaining
    {bound : Nat}
    {c : Countdown}
    {counts : List (Option Nat)}
    (hStart : c.remaining ≤ bound)
    (hPositive : 1 ≤ bound)
    (hCounts : ∀ count, some count ∈ counts → count ≤ bound) :
    (counts.foldl Countdown.entry c).remaining ≤ bound := by
  induction counts generalizing c with
  | nil => exact hStart
  | cons count? counts ih =>
      refine ih ?_ (fun count hCount => hCounts count (.tail _ hCount))
      have hGiven : (c.giveAny count?).remaining ≤ bound := by
        cases count? with
        | none => exact hStart
        | some count => exact hCounts count (.head _)
      rw [Countdown.entry]
      rcases Nat.lt_or_ge 1 (c.giveAny count?).remaining with hLast | hLast
      · rw [Countdown.place_inner hLast]
        dsimp only
        omega
      · rw [Countdown.place_last hLast]
        exact hPositive

/- Each count is at most the largest one. -/
theorem glyphCount?_le_largestCount
    {ts entry : List (Token α)}
    {count : Nat}
    (hEntry : entry ∈ entries ts)
    (hCount : glyphCount? entry = some count) :
    count ≤ largestCount ts := by
  have hMem : count ∈ (entries ts).filterMap glyphCount? :=
    List.mem_filterMap.2 ⟨entry, hEntry, hCount⟩
  rw [largestCount]
  generalize (entries ts).filterMap glyphCount? = counts at hMem ⊢
  induction counts with
  | nil => cases hMem
  | cons other counts ih =>
      rw [List.foldr_cons]
      rcases List.mem_cons.1 hMem with rfl | hMem
      · exact Nat.le_max_left _ _
      · exact Nat.le_trans (ih hMem) (Nat.le_max_right _ _)

theorem largestCount_pos
    (ts : List (Token α)) : 1 ≤ largestCount ts := by
  rw [largestCount]
  induction (entries ts).filterMap glyphCount? with
  | nil => exact Nat.le_refl 1
  | cons count counts ih => exact Nat.le_trans ih (Nat.le_max_right _ _)

/- Counts of entries that get a glyph are counts of entries. -/
theorem placedCounts_sublist
    (textLeft : Bool)
    (ts : List (Token α)) :
    (placedCounts textLeft ts).Sublist ((entries ts).map glyphCount?) := by
  simp only [placedCounts]
  split
  · exact (List.dropLast_sublist _).map _
  · exact .refl _

/- Every entry gets a glyph while there is text. -/
theorem placedCounts_of_text
    (ts : List (Token α)) :
    placedCounts true ts = (entries ts).map glyphCount? := by
  simp [placedCounts]

namespace Machine

/- The countdown after the entries that get a glyph. -/
theorem takeAll?_countdown
    {f : ScaledFont α}
    {q : Placement α}
    {text : List Char}
    {ts : List (Token α)}
    {m : Machine α}
    (h : (initial q text).takeAll? f q ts = some m) :
    (m.lastEntry f q).countdown =
      (placedCounts (!m.text.isEmpty) ts).foldl Countdown.entry
        ⟨0, 0, 1, 1⟩ := by
  have hTokens : (ts.map fun t => (⟨t, 0⟩ : Placed α)).map Placed.token = ts := by
    rw [List.map_map]
    exact List.map_id ts
  have hSteps := lastEntry_countdown
    (foldlM_step_iff.2 (by rw [hTokens]; exact h))
  rwa [hTokens] at hSteps

/- Each glyph of a run that uses up the text is a new one. -/
theorem Drains.glyphs
    {f : ScaledFont α}
    {q : Placement α}
    {n : Nat}
    {m last : Machine α}
    (h : Drains f q n m last) :
    last.glyphs.length = m.glyphs.length + n := by
  induction h with
  | done => rfl
  | @place n m last _ _ ih =>
      rw [ih, length_emit_glyphs]
      omega

/- The glyphs of the entries, and those that the text left gets. -/
theorem length_finish_glyphs
    {f : ScaledFont α}
    {q : Placement α}
    {text : List Char}
    {ts : List (Token α)}
    {m : Machine α}
    (h : (initial q text).takeAll? f q ts = some m) :
    (m.finish f q).glyphs.length =
      (placedCounts (!m.text.isEmpty) ts).length +
        (m.lastEntry f q).glyphsLeft := by
  have hPlaced := congrArg Countdown.placed (takeAll?_countdown h)
  rw [Countdown.entries_placed, Nat.zero_add] at hPlaced
  have hEntries :
      (m.lastEntry f q).glyphs.length =
        (placedCounts (!m.text.isEmpty) ts).length := hPlaced
  rw [finish_eq, List.length_reverse,
    (drains f q (m.lastEntry f q)).glyphs, hEntries]

/- Glyphs to come are at most the largest count. -/
theorem remaining_le_largestCount
    {f : ScaledFont α}
    {q : Placement α}
    {text : List Char}
    {ts : List (Token α)}
    {m : Machine α}
    (h : (initial q text).takeAll? f q ts = some m) :
    (m.lastEntry f q).remaining ≤ largestCount ts := by
  have hRemaining := congrArg Countdown.remaining (takeAll?_countdown h)
  have hCounts (count : Nat)
      (hCount : some count ∈ placedCounts (!m.text.isEmpty) ts) :
      count ≤ largestCount ts := by
    obtain ⟨entry, hEntry, hGiven⟩ :=
      List.mem_map.1 ((placedCounts_sublist _ ts).subset hCount)
    exact glyphCount?_le_largestCount hEntry hGiven
  calc (m.lastEntry f q).remaining
      = _ := hRemaining
    _ ≤ largestCount ts :=
        Countdown.entries_remaining (largestCount_pos ts)
          (largestCount_pos ts) hCounts

/-
  The glyphs of a run against its entries and its characters:
  fewer than the largest count are in excess, and none exactly
  when the cluster under way keeps to the text.
-/
theorem finish_glyphs_le_iff
    {f : ScaledFont α}
    {q : Placement α}
    {text : List Char}
    {ts : List (Token α)}
    {m : Machine α}
    (h : (initial q text).takeAll? f q ts = some m) :
    (m.finish f q).glyphs.length <
        (entries ts).length + text.length + largestCount ts ∧
      ((m.finish f q).glyphs.length ≤ (entries ts).length + text.length ↔
        KeepsToText f q text ts) := by
  have hKeeps :
      KeepsToText f q text ts ↔
        ((m.lastEntry f q).text ≠ [] →
          (m.lastEntry f q).remaining + (m.lastEntry f q).text.length ≤
            text.length + (m.lastEntry f q).clusterChars) := by
    rw [KeepsToText, h]
    simp
  have hLargest := largestCount_pos ts
  have hRemaining := remaining_le_largestCount h
  rw [hKeeps, length_finish_glyphs h, glyphsLeft]
  by_cases hText : (m.lastEntry f q).text = []
  · have hPlaced := (placedCounts_sublist (!m.text.isEmpty) ts).length_le
    rw [List.length_map] at hPlaced
    rw [if_pos hText]
    exact ⟨by omega, fun _ hNe => absurd hText hNe, fun _ => by omega⟩
  · have hPlaced :
        (placedCounts (!m.text.isEmpty) ts).length = (entries ts).length := by
      have hSome : (!m.text.isEmpty) = true := by
        simpa using lastEntry_text hText
      rw [hSome, placedCounts_of_text, List.length_map]
    -- the cluster under way takes at least one character of the text
    have hChars := clusterChars_pos hText
    have hCovers := ((covers_initial q text).takeAll h).lastEntry (f := f) (q := q)
    have hFits := hCovers.clusterChars_le
    have hLeft := hCovers.length_le
    rw [if_neg hText, hPlaced]
    refine ⟨by omega, fun hLe _ => by omega, fun hRest => ?_⟩
    have := hRest hText
    omega

end Machine

end Indices

------------------------------------------------------------
-- Glyph runs
------------------------------------------------------------

variable {α : Type} [Scalar α]

/- A text without indices has one glyph for each character. -/
theorem GlyphLayout.length_ofText
    (f : ScaledFont α)
    (q : Placement α)
    (pen : Point α)
    (text : List Char) :
    (ofText f q pen text).glyphs.length = text.length := by
  induction text generalizing pen with
  | nil => rfl
  | cons c cs ih =>
      rw [ofText, cons, List.length_cons, ih, List.length_cons]

/- Without indices, each character gets one glyph. -/
theorem Indices.keepsToText_nil
    (f : ScaledFont α)
    (q : Placement α)
    (text : List Char) : KeepsToText f q text [] := by
  have hEntry :
      (Machine.initial q text).lastEntry f q =
        (Machine.initial q text).emit f q := by
    simp [Machine.lastEntry, Machine.initial]
  have hRemaining :=
    (Machine.emit_last (m := .initial q text) f q (Nat.le_refl 1)).remaining
  refine ⟨.initial q text, rfl, fun hText => ?_⟩
  have hChars := Machine.clusterChars_pos hText
  have hLeft := (Machine.covers_initial q text).lastEntry (f := f) (q := q)
    |>.length_le
  rw [hEntry] at hChars hLeft ⊢
  omega

/-
  The glyphs of a run exceed its entries and the characters of
  its text by less than the largest glyph count of its indices.
  They do not exceed them exactly when the cluster under way at
  the end of the indices keeps to the text.
-/
theorem layoutGlyphs_glyphs_le_iff
    (f : ScaledFont α)
    (q : Placement α)
    (text : String)
    (indices? : Option String)
    (layout : GlyphLayout α)
    (h : layoutGlyphs f q text indices? = .ok layout) :
    let indices := indices?.getD ""
    let tokens := Indices.tokensOf α indices
    layout.glyphs.length <
        Indices.entryCount indices + text.length +
          Indices.largestCount tokens ∧
      (layout.glyphs.length ≤ Indices.entryCount indices + text.length ↔
        Indices.KeepsToText f q text.toList tokens) := by
  dsimp only
  cases hIndices : indices?.filter (fun indices => !indices.isEmpty) with
  | some indices =>
      obtain ⟨hSome, hNe⟩ := Option.filter_eq_some_iff.1 hIndices
      simp only [layoutGlyphs, hIndices] at h
      split at h <;> cases h
      rename_i hLayout
      obtain ⟨ts, last, hCuts, hTaken, -, rfl⟩ :=
        Indices.layout_eq_ok_iff.1 hLayout
      have hEntries :
          Indices.entryCount indices = (Indices.entries ts).length := by
        rw [hCuts.length_entries, Indices.entryCount, if_neg (by simpa using hNe)]
      have hTokens : Indices.tokensOf α indices = ts := hCuts.1
      rw [hSome, Option.getD_some, hEntries, hTokens, ← String.length_toList]
      exact Indices.Machine.finish_glyphs_le_iff hTaken
  | none =>
      simp only [layoutGlyphs, hIndices] at h
      split at h <;> cases h
      have hEmpty : indices?.getD "" = "" := by
        cases indices? with
        | none => rfl
        | some indices => simpa [Option.filter] using hIndices
      have hTokens : Indices.tokensOf α "" = [] := by
        rw [Indices.tokensOf, String.toList_empty, Indices.scan]
        rfl
      have hGlyphs := GlyphLayout.length_ofText f q q.origin text.toList
      rw [String.length_toList] at hGlyphs
      rw [hEmpty, hTokens, hGlyphs]
      refine ⟨?_, fun _ => Indices.keepsToText_nil f q text.toList,
        fun _ => Nat.le_add_left _ _⟩
      have := Indices.largestCount_pos ([] : List (Indices.Token α))
      omega

section Excess

open Indices

/- The tokens of "(1:3)5". -/
def excessTokens : List (Token ℚ) :=
  [.openCluster, .number 1, .colon, .number 3, .closeCluster, .number 5]

/- One entry and one character, but three glyphs. -/
theorem layoutGlyphs_excess :
    let q : Placement ℚ := ⟨⟨0, 0⟩, false, false⟩
    let layout : GlyphLayout ℚ :=
      ⟨[⟨5, ⟨0, 0⟩⟩, ⟨1, ⟨1, 0⟩⟩, ⟨1, ⟨2, 0⟩⟩], [⟨1, 3⟩]⟩
    layoutGlyphs unitFont q "a" (some "(1:3)5") = .ok layout ∧
      layout.glyphs.length < 1 + 1 + 3 ∧
      ¬layout.glyphs.length ≤ 1 + 1 ∧
      ¬KeepsToText unitFont q "a".toList excessTokens := by
  intro q layout
  have hCuts : Cuts "(1:3)5".toList excessTokens :=
    ⟨by decide +kernel, 6, by decide +kernel⟩
  have hLayout :
      layoutGlyphs unitFont q "a" (some "(1:3)5") = .ok layout := by
    rw [layoutGlyphs_some_eq_ok_iff (by decide), layout_eq_ok_iff]
    refine ⟨excessTokens, _, hCuts, rfl, rfl, ?_⟩
    rw [Machine.finish_eq,
      Machine.drain_of_ne unitFont q (by decide +kernel),
      Machine.drain_of_ne unitFont q (by decide +kernel),
      Machine.drain_of_nil unitFont q (by decide +kernel)]
    decide +kernel
  have hGlyphs :=
    layoutGlyphs_glyphs_le_iff unitFont q "a" (some "(1:3)5") layout hLayout
  have hTokens : tokensOf ℚ "(1:3)5" = excessTokens := hCuts.1
  have hLargest : largestCount excessTokens = 3 := by decide +kernel
  have hEntries : entryCount "(1:3)5" = 1 := by decide
  simp only [Option.getD_some, hTokens, hLargest, hEntries] at hGlyphs
  exact ⟨hLayout, hGlyphs.1, by decide, fun hKeeps =>
    absurd (hGlyphs.2.2 hKeeps) (by decide)⟩

end Excess

end FixedPage
