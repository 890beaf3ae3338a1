import FixedPage.Proofs.Glyph.Partition
import FixedPage.Proofs.Glyph.Placing
import FixedPage.Proofs.Glyph.Scanning

/-
  This file shows that glyph runs are laid out piece by piece.
  Indices that complete their clusters can be cut at any
  semicolon: the indices before it lay out the text that their
  clusters take, those after it the rest of the text from the
  pen position that is left.

  Main declarations:
    * `Machine.after`
    * `Machine.finish_after`
    * `layoutRest`
    * `layoutGlyphs_append`
-/

namespace FixedPage

namespace Indices

------------------------------------------------------------
-- Text that clusters take
------------------------------------------------------------

/- Code units are counted in the text that they reach into. -/
theorem charsOfUnits_append
    {units : Nat}
    {text more : List Char}
    (h : charsOfUnits units (text ++ more) ≤ text.length) :
    charsOfUnits units text = charsOfUnits units (text ++ more) := by
  induction text generalizing units with
  | nil =>
      have hZero : charsOfUnits units ([] ++ more) = 0 := Nat.le_zero.1 h
      rw [hZero]
      cases units <;> rfl
  | cons c text ih =>
      cases units with
      | zero => rfl
      | succ units =>
          rw [List.cons_append, charsOfUnits, List.length_cons] at h
          rw [List.cons_append, charsOfUnits, charsOfUnits, ih (by omega)]

variable {α : Type} [Scalar α]

/- A cluster takes no more characters than there are. -/
theorem Entry.chars_le
    (e : Entry α)
    (text : List Char) : e.chars text ≤ text.length := by
  obtain ⟨_ | ⟨units, _⟩, index?, metrics?⟩ := e
  · exact Nat.min_le_right _ _
  · simp only [chars]
    split
    · exact Nat.min_le_right _ _
    · exact charsOfUnits_le _ text

/- A cluster takes some of a text that has any. -/
theorem Entry.chars_eq_zero
    (e : Entry α)
    {text : List Char}
    (h : e.chars text = 0) : text = [] := by
  rw [← List.length_eq_zero_iff]
  obtain ⟨_ | ⟨units, _⟩, index?, metrics?⟩ := e
  · simp only [chars] at h
    omega
  · simp only [chars] at h
    split at h
    · omega
    · contradiction

/- A cluster takes the same characters if no more are there. -/
theorem Entry.chars_append
    {e : Entry α}
    {text more : List Char}
    (h : e.chars (text ++ more) ≤ text.length) :
    e.chars text = e.chars (text ++ more) := by
  have hLength : (text ++ more).length = text.length + more.length :=
    List.length_append
  obtain ⟨_ | ⟨units, _⟩, index?, metrics?⟩ := e
  · simp only [chars, hLength] at h ⊢
    omega
  · simp only [chars, hLength] at h ⊢
    by_cases hZero : charsOfUnits (countOf units) (text ++ more) = 0
    · rw [if_pos hZero] at h
      have hUnits :
          charsOfUnits (countOf units) text =
            charsOfUnits (countOf units) (text ++ more) :=
        charsOfUnits_append (by omega)
      rw [hUnits, if_pos hZero, if_pos hZero]
      omega
    · rw [if_neg hZero] at h
      rw [charsOfUnits_append h, if_neg hZero, if_neg hZero]

namespace Cluster

/- Clusters cut a text in two. -/
theorem taken_append_left
    (cs : List (Cluster α))
    (text : List Char) : taken cs text ++ left cs text = text := by
  induction cs generalizing text with
  | nil => rfl
  | cons c cs ih =>
      rw [taken, left, List.append_assoc, ih, List.take_append_drop]

/- Where the first cluster ends in the text that all of them take. -/
theorem chars_taken
    (c : Cluster α)
    (cs : List (Cluster α))
    (text : List Char) :
    c.chars (taken (c :: cs) text) = c.chars text := by
  have hWhole := taken_append_left (c :: cs) text
  have hChars : c.chars text ≤ (taken (c :: cs) text).length := by
    have hLe := c.first.chars_le text
    rw [taken, List.length_append, List.length_take]
    rw [chars] at *
    omega
  have hSame : c.chars (taken (c :: cs) text) =
      c.chars (taken (c :: cs) text ++ left (c :: cs) text) :=
    Entry.chars_append (by rw [hWhole]; exact hChars)
  rw [hSame, hWhole]

/- What the other clusters take of it. -/
theorem taken_cons
    (c : Cluster α)
    (cs : List (Cluster α))
    (text : List Char) :
    (taken (c :: cs) text).take (c.chars text) =
        text.take (c.chars text) ∧
      (taken (c :: cs) text).drop (c.chars text) =
        taken cs (text.drop (c.chars text)) := by
  have hLength : (text.take (c.chars text)).length = c.chars text :=
    List.length_take_of_le (c.first.chars_le text)
  exact ⟨List.take_left' hLength, List.drop_left' hLength⟩

/- The text that some clusters leave for more of them. -/
theorem left_taken_append
    (cs more : List (Cluster α))
    (text : List Char) :
    left cs (taken (cs ++ more) text) = taken more (left cs text) := by
  induction cs generalizing text with
  | nil => rfl
  | cons c cs ih =>
      rw [List.cons_append, left, chars_taken, (taken_cons c _ text).2, ih]
      rfl

/- Clusters take all of the text that they take. -/
theorem left_taken
    (cs : List (Cluster α))
    (text : List Char) : left cs (taken cs text) = [] := by
  have h := left_taken_append cs [] text
  rwa [List.append_nil] at h

/- One more cluster takes some of the text, if any is left. -/
theorem left_taken_concat
    {cs : List (Cluster α)}
    {text : List Char}
    (h : left cs text ≠ [])
    (c : Cluster α) : left cs (taken (cs ++ [c]) text) ≠ [] := by
  rw [left_taken_append, taken, taken, List.append_nil]
  intro hNil
  rcases List.take_eq_nil_iff.1 hNil with hChars | hText
  · exact h (c.first.chars_eq_zero hChars)
  · exact h hText

/- The characters in front of clusters are among those they take. -/
theorem head?_taken
    (c : Cluster α)
    (cs : List (Cluster α))
    (text : List Char) : (taken (c :: cs) text).head? = text.head? := by
  have hWhole := taken_append_left (c :: cs) text
  cases hTaken : taken (c :: cs) text with
  | cons d rest =>
      rw [← hWhole, hTaken]
      rfl
  | nil =>
      have hChars : c.chars text = 0 := by
        rw [← chars_taken c cs text, hTaken]
        exact Nat.le_zero.1 (c.first.chars_le [])
      rw [c.first.chars_eq_zero hChars]

/- Clusters are laid out by the text that they take. -/
theorem layout_taken
    (f : ScaledFont α)
    (q : Placement α)
    (pen : Point α)
    (cs : List (Cluster α))
    (text : List Char) :
    layout f q pen cs (taken cs text) = layout f q pen cs text := by
  induction cs generalizing pen text with
  | nil => rfl
  | cons c cs ih =>
      simp only [layout, head?_taken, chars_taken, taken_cons, ih]

end Cluster

------------------------------------------------------------
-- Machines that go on after glyphs
------------------------------------------------------------

namespace Machine

/- A machine with some glyphs and clusters before its own. -/
def after
    (glyphs : List (PositionedGlyph α))
    (clusters : List TextCluster)
    (m : Machine α) : Machine α :=
  { m with
    glyphs := m.glyphs ++ glyphs
    clusters := m.clusters ++ clusters }

variable
  (f : ScaledFont α)
  (q : Placement α)
  (glyphs : List (PositionedGlyph α))
  (clusters : List TextCluster)

theorem emit_after
    (m : Machine α) :
    (m.after glyphs clusters).emit f q =
      (m.emit f q).after glyphs clusters := by
  have hSame : (m.after glyphs clusters).remaining = m.remaining := rfl
  by_cases hLast : m.remaining ≤ 1
  · simp only [emit, hSame, if_pos hLast]
    rfl
  · simp only [emit, hSame, if_neg hLast]
    rfl

theorem dispatch_after
    (m : Machine α)
    (p : Placed α) :
    (m.after glyphs clusters).dispatch f q p =
      (m.dispatch f q p).map (after glyphs clusters) := by
  obtain ⟨t, offset⟩ := p
  cases t with
  | number x =>
      simp only [dispatch]
      split <;> rfl
  | semicolon =>
      simp only [dispatch, emit_after]
      rfl
  | _ => rfl

/- Glyphs before do not change what a token does. -/
theorem take?_after
    (m : Machine α)
    (t : Token α) :
    (m.after glyphs clusters).take? f q t =
      (m.take? f q t).map (after glyphs clusters) := by
  have hMap (outcome : Except Fault (Machine α)) :
      (outcome.map (after glyphs clusters)).toOption =
        outcome.toOption.map (after glyphs clusters) := by
    cases outcome <;> rfl
  have hSame : (m.after glyphs clusters).mode = m.mode := rfl
  rw [take?, take?, ← hMap]
  congr 1
  cases hMode : m.mode <;> cases t <;>
    rw [hMode] at hSame <;>
    simp only [step, hMode, hSame] <;>
    first
    | rfl
    | exact dispatch_after f q glyphs clusters m _

theorem takeAll?_after
    (m : Machine α)
    (ts : List (Token α)) :
    (m.after glyphs clusters).takeAll? f q ts =
      (m.takeAll? f q ts).map (after glyphs clusters) := by
  induction ts generalizing m with
  | nil => rfl
  | cons t ts ih =>
      rw [takeAll?_cons, takeAll?_cons, take?_after]
      cases m.take? f q t with
      | none => rfl
      | some next => exact ih next

theorem drain_after
    (m : Machine α) :
    (m.after glyphs clusters).drain f q =
      (m.drain f q).after glyphs clusters := by
  fun_induction drain f q m with
  | case1 m hText =>
      exact drain_of_nil (m := m.after glyphs clusters) f q hText
  | case2 m hText _ ih =>
      rw [drain_of_ne (m := m.after glyphs clusters) f q hText, emit_after, ih]

/-
  Glyphs before a run come before its own, if the run would get
  a glyph without them.
-/
theorem finish_after
    {m : Machine α}
    (h : m.pending = true ∨ m.text ≠ [] ∨ m.glyphs ≠ []) :
    (m.after glyphs clusters).finish f q =
      ⟨glyphs.reverse ++ (m.finish f q).glyphs,
        clusters.reverse ++ (m.finish f q).clusters⟩ := by
  have hEntry :
      (m.after glyphs clusters).lastEntry f q =
        (m.lastEntry f q).after glyphs clusters := by
    have hPlaced :
        ((m.after glyphs clusters).pending ||
            !(m.after glyphs clusters).text.isEmpty ||
            (m.after glyphs clusters).glyphs.isEmpty) =
          (m.pending || !m.text.isEmpty || m.glyphs.isEmpty) := by
      cases hPending : m.pending <;> cases hText : m.text <;>
        cases hGlyphs : m.glyphs <;> simp_all [after]
    rw [lastEntry, lastEntry, hPlaced]
    split
    · exact emit_after f q glyphs clusters m
    · rfl
  rw [finish_eq, finish_eq, hEntry, drain_after]
  simp only [after, List.reverse_append]

/- A field given, or text left, makes the last entry get a glyph. -/
theorem lastEntry_placed
    {m : Machine α}
    (h : m.pending = true ∨ m.text ≠ []) :
    m.lastEntry f q = m.emit f q := by
  rw [lastEntry, if_pos]
  rcases h with h | h <;> simp [h]

/-
  Clusters whose last entry gets a glyph when the data ends lay
  out the text that they take.
-/
theorem finish_clusters
    {pen : Point α}
    {cs : List (Cluster α)}
    {c : Cluster α}
    {text : List Char}
    (hLast : c.last.fields ≠ [] ∨ Cluster.left cs text ≠ []) :
    (((fresh pen (Cluster.taken (cs ++ [c]) text) [] []).placeAll f q
        (cs.flatMap Cluster.entries ++ c.begun)).filled
          c.last).finish f q =
      Cluster.layout f q pen (cs ++ [c]) text := by
  generalize hStart : fresh pen (Cluster.taken (cs ++ [c]) text) [] [] = m
  -- the text of the last cluster is there until its last glyph
  have hText : (m.placeAll f q (cs.flatMap Cluster.entries ++ c.begun)).text =
      Cluster.left cs (Cluster.taken (cs ++ [c]) text) := by
    rw [← hStart, placeAll_append, (placeAll_clusters f q _ _ _ _ cs).2]
    exact placeAll_underway
      ((filled_fresh _ _ _ _ c.first).2.2.trans c.complete) c.plain
      c.begun_append_last.symm
  have hPlaced :
      ((m.placeAll f q (cs.flatMap Cluster.entries ++ c.begun)).filled
          c.last).lastEntry f q =
        m.placeAll f q ((cs ++ [c]).flatMap Cluster.entries) := by
    rw [Cluster.flatMap_entries_concat, placeAll_append _ _ _ _ [c.last],
      lastEntry_placed]
    · rfl
    · rw [filled_text, hText]
      exact hLast.imp (filled_pending _) (fun h => Cluster.left_taken_concat h c)
  rw [finish_eq, hPlaced, ← hStart, (placeAll_clusters f q _ _ _ _ _).2,
    Cluster.left_taken, drain_of_nil f q rfl, Cluster.layout_taken]
  simp [fresh]

/- Where a run starts does not matter for what comes next. -/
theorem emit_moved
    (pen : Point α) :
    emit f { q with origin := pen } = emit f q := rfl

theorem finish_moved
    (pen : Point α)
    (m : Machine α) :
    m.finish f { q with origin := pen } = m.finish f q := by
  have hDrain (m : Machine α) :
      m.drain f { q with origin := pen } = m.drain f q := by
    fun_induction drain f q m with
    | case1 m hText => exact drain_of_nil f _ hText
    | case2 m hText _ ih => rw [drain_of_ne f _ hText, emit_moved, ih]
  rw [finish_eq, finish_eq, hDrain]
  rfl

end Machine

------------------------------------------------------------
-- Glyphs without indices
------------------------------------------------------------

section Exact

variable [ExactNegation α]

theorem direct_zero
    (q : Placement α) : q.direct 0 = 0 := by
  rw [Placement.direct, ExactNegation.neg_zero, ite_self]

/- No distance in the em is none on the page. -/
theorem distance_zero
    (f : ScaledFont α) : f.distance ⟨0, 0⟩ = ⟨0, 0⟩ := by
  simp only [ScaledFont.distance, Matrix.applyVector,
    ExactScalar.mul_zero, ExactScalar.add_zero]

/- An entry without fields. -/
def Entry.empty : Entry α :=
  ⟨none, none, none⟩

/- It takes the glyph of the next character, at the pen. -/
theorem Entry.empty_glyph
    (f : ScaledFont α)
    (q : Placement α)
    (pen : Point α)
    (c : Char) :
    empty.glyph f q pen (some c) =
      ⟨f.glyph c, q.shift (f.extents (f.glyph c)) pen⟩ := by
  have hOffset : (empty : Entry α).offset = ⟨0, 0⟩ := rfl
  have hIndex : (empty : Entry α).glyphIndex f (some c) = f.glyph c := rfl
  simp only [Entry.glyph, hOffset, hIndex, direct_zero,
    ExactNegation.neg_zero, ite_self, distance_zero, ExactScalar.add_zero,
    ExactScalar.sub_zero]

namespace Machine

variable (f : ScaledFont α) (q : Placement α)

/- Where nothing is given, a character gets the glyph of its own. -/
theorem emit_fresh
    (pen : Point α)
    (c : Char)
    (rest : List Char)
    (glyphs : List (PositionedGlyph α))
    (clusters : List TextCluster) :
    (fresh pen (c :: rest) glyphs clusters).emit f q =
      fresh
        ⟨pen.x + q.direct (q.naturalAdvance f (f.extents (f.glyph c))),
          pen.y⟩
        rest
        (⟨f.glyph c, q.shift (f.extents (f.glyph c)) pen⟩ :: glyphs)
        (⟨c.utf8Size, 1⟩ :: clusters) := by
  have hPen :
      pen.add (Entry.empty.signedAdvance f q (f.glyph c)) =
        ⟨pen.x + q.direct (q.naturalAdvance f (f.extents (f.glyph c))),
          pen.y⟩ :=
    congrArg (Point.mk _) (ExactScalar.add_zero pen.y)
  have hPlace := (fresh_idle pen (c :: rest) glyphs clusters).place_last
    (f := f) (q := q) (e := .empty) (Nat.le_refl 1)
  calc (fresh pen (c :: rest) glyphs clusters).emit f q
      = fresh
          (pen.add
            (Entry.empty.signedAdvance f q
              (Entry.empty.glyph f q pen (some c)).index))
          rest (Entry.empty.glyph f q pen (some c) :: glyphs)
          (⟨c.utf8Size, 1⟩ :: clusters) := hPlace
    _ = _ := by rw [Entry.empty_glyph, hPen]

/- The text that is left gets the glyphs of its characters. -/
theorem drain_fresh
    (pen : Point α)
    (text : List Char)
    (glyphs : List (PositionedGlyph α))
    (clusters : List TextCluster) :
    let own := GlyphLayout.ofText f q pen text
    ((fresh pen text glyphs clusters).drain f q).glyphs =
        own.glyphs.reverse ++ glyphs ∧
      ((fresh pen text glyphs clusters).drain f q).clusters =
        own.clusters.reverse ++ clusters := by
  induction text generalizing pen glyphs clusters with
  | nil =>
      rw [drain_of_nil f q rfl]
      exact ⟨rfl, rfl⟩
  | cons c rest ih =>
      obtain ⟨hGlyphs, hClusters⟩ := ih
        ⟨pen.x + q.direct (q.naturalAdvance f (f.extents (f.glyph c))),
          pen.y⟩
        (⟨f.glyph c, q.shift (f.extents (f.glyph c)) pen⟩ :: glyphs)
        (⟨c.utf8Size, 1⟩ :: clusters)
      rw [drain_of_ne f q (List.cons_ne_nil c rest), emit_fresh]
      simp only [hGlyphs, hClusters, GlyphLayout.ofText, GlyphLayout.cons,
        List.reverse_cons, List.append_assoc, List.singleton_append,
        and_self]

/- So does the text of a fresh machine when the data ends. -/
theorem finish_fresh
    {pen : Point α}
    {text : List Char}
    {glyphs : List (PositionedGlyph α)}
    {clusters : List TextCluster}
    (h : text ≠ [] ∨ glyphs ≠ []) :
    let own := GlyphLayout.ofText f q pen text
    (fresh pen text glyphs clusters).finish f q =
      ⟨glyphs.reverse ++ own.glyphs, clusters.reverse ++ own.clusters⟩ := by
  have hDrain :
      ((fresh pen text glyphs clusters).lastEntry f q).drain f q =
        (fresh pen text glyphs clusters).drain f q := by
    cases text with
    | nil =>
        have hGlyphs : glyphs.isEmpty = false := by
          simpa using h
        simp [lastEntry, fresh, hGlyphs]
    | cons c rest =>
        rw [drain_of_ne (m := fresh pen (c :: rest) glyphs clusters) f q
          (List.cons_ne_nil c rest)]
        simp [lastEntry, fresh]
  obtain ⟨hGlyphs, hClusters⟩ := drain_fresh f q pen text glyphs clusters
  rw [finish_eq, hDrain, hGlyphs, hClusters]
  simp only [List.reverse_append, List.reverse_reverse]

/- Semicolons alone let each character get its own glyph. -/
theorem takeAll?_semicolons
    (pen : Point α)
    (text : List Char)
    (glyphs : List (PositionedGlyph α))
    (clusters : List TextCluster)
    {k : Nat}
    (hLength : k ≤ text.length)
    (hSome : text ≠ [] ∨ glyphs ≠ []) :
    let own := GlyphLayout.ofText f q pen text
    ∃ last,
      (fresh pen text glyphs clusters).takeAll? f q
          (List.replicate k .semicolon) = some last ∧
        Mode.required? last.mode = none ∧
          last.finish f q =
            ⟨glyphs.reverse ++ own.glyphs,
              clusters.reverse ++ own.clusters⟩ := by
  induction k generalizing pen text glyphs clusters with
  | zero => exact ⟨_, rfl, rfl, finish_fresh f q hSome⟩
  | succ k ih =>
      cases text with
      | nil => cases hLength
      | cons c rest =>
          obtain ⟨last, hTaken, hMode, hFinish⟩ := ih
            ⟨pen.x + q.direct
              (q.naturalAdvance f (f.extents (f.glyph c))), pen.y⟩
            rest
            (⟨f.glyph c, q.shift (f.extents (f.glyph c)) pen⟩ :: glyphs)
            (⟨c.utf8Size, 1⟩ :: clusters)
            (Nat.le_of_succ_le_succ hLength) (.inr (List.cons_ne_nil _ _))
          refine ⟨last, ?_, hMode, ?_⟩
          · rw [← emit_fresh] at hTaken
            exact hTaken
          · rw [hFinish]
            simp only [GlyphLayout.ofText, GlyphLayout.cons,
              List.reverse_cons, List.append_assoc, List.singleton_append]

end Machine

end Exact

end Indices

------------------------------------------------------------
-- Glyph runs
------------------------------------------------------------

variable {α : Type} [Scalar α]

/- One layout after the other. -/
def GlyphLayout.append
    (first second : GlyphLayout α) : GlyphLayout α :=
  ⟨first.glyphs ++ second.glyphs, first.clusters ++ second.clusters⟩

/-
  Lays out what is left of a glyph run: text and glyph indices,
  of which both may have come to their end.
-/
def layoutRest
    (f : ScaledFont α)
    (q : Placement α)
    (text indices : String) : Except GlyphRunFault (GlyphLayout α) :=
  if text.isEmpty && indices.isEmpty then .ok .empty
  else layoutGlyphs f q text (some indices)

/- Empty glyph indices are as good as none. -/
theorem layoutGlyphs_empty
    (f : ScaledFont α)
    (q : Placement α)
    {text : String}
    (hText : text ≠ "") :
    layoutGlyphs f q text (some "") =
        .ok (.ofText f q q.origin text.toList) ∧
      layoutGlyphs f q text none =
        .ok (.ofText f q q.origin text.toList) := by
  have hEmpty :
      (some "").filter (fun indices : String => !indices.isEmpty) = none := by
    simp
  constructor
  · simp [layoutGlyphs, hEmpty, hText]
  · simp [layoutGlyphs, hText]

/-
  A run that takes all tokens is the layout, also for the empty
  indices that no machine is run for.
-/
theorem layoutGlyphs_of_run
    [ExactNegation α]
    {f : ScaledFont α}
    {q : Placement α}
    {text indices : String}
    {ts : List (Indices.Token α)}
    {last : Indices.Machine α}
    (hSome : text ≠ "" ∨ indices ≠ "")
    (hCuts : Indices.Cuts indices.toList ts)
    (hTaken :
      (Indices.Machine.initial q text.toList).takeAll? f q ts = some last)
    (hMode : Indices.Machine.Mode.required? last.mode = none) :
    layoutGlyphs f q text (some indices) = .ok (last.finish f q) := by
  by_cases hIndices : indices = ""
  · subst hIndices
    have hText : text ≠ "" := by simpa using hSome
    rw [Indices.Cuts.nil hCuts] at hTaken
    cases hTaken
    have hFinish :
        (Indices.Machine.initial q text.toList).finish f q =
          .ofText f q q.origin text.toList :=
      Indices.Machine.finish_fresh f q (.inl (by simpa using hText))
    rw [(layoutGlyphs_empty f q hText).1, hFinish]
  · rw [layoutGlyphs_some_eq_ok_iff hIndices, Indices.layout_eq_ok_iff]
    exact ⟨ts, last, hCuts, hTaken, hMode, rfl⟩

namespace Indices

/- The entries of a text are not none. -/
theorem Spells.ne_nil
    {indices : List Char}
    {es : List (Entry α)}
    (h : Spells indices es) : es ≠ [] := by
  obtain ⟨ts, -, hEntries, -⟩ := h
  rintro rfl
  exact List.splitOnP_ne_nil _ _ hEntries

/- The entry of empty indices has no fields. -/
theorem Spells.nil
    {es : List (Entry α)}
    (h : Spells [] es) : ∀ e ∈ es, e.fields = [] := by
  obtain ⟨ts, hCuts, hEntries, -⟩ := h
  rw [hCuts.nil] at hEntries
  intro e hE
  have hTokens : e.tokens ∈ ([[]] : List (List (Token α))) := by
    rw [show [[]] = entries ([] : List (Token α)) from rfl, hEntries]
    exact List.mem_map_of_mem hE
  exact rowTokens_eq_nil (List.mem_singleton.1 hTokens)

variable [ExactNegation α] {f : ScaledFont α} {q : Placement α}

/-
  The indices of complete clusters lay out the text that the
  clusters take, if their last entry gets a glyph.
-/
theorem layoutGlyphs_taken
    {text indices : String}
    {cs : List (Cluster α)}
    {c : Cluster α}
    (hSpells :
      Spells indices.toList ((cs ++ [c]).flatMap Cluster.entries))
    (hLast : c.last.fields ≠ [] ∨ Cluster.left cs text.toList ≠ []) :
    layoutGlyphs f q
        (String.ofList (Cluster.taken (cs ++ [c]) text.toList))
        (some indices) =
      .ok (Cluster.layout f q q.origin (cs ++ [c]) text.toList) := by
  generalize hTaken : Cluster.taken (cs ++ [c]) text.toList = taken
  have hSome : String.ofList taken ≠ "" ∨ indices ≠ "" := by
    by_contra hNone
    obtain ⟨hText, hIndices⟩ := not_or.1 hNone
    rw [not_not] at hText hIndices
    rw [hIndices, String.toList_empty] at hSpells
    have hNil : taken = [] := by simpa using hText
    rcases hLast with hFields | hLeft
    · refine hFields (hSpells.nil c.last ?_)
      rw [Cluster.flatMap_entries_concat]
      exact List.mem_append_right _ (List.mem_singleton_self _)
    · have hMore := Cluster.left_taken_concat hLeft c
      have hWhole := Cluster.taken_append_left cs ([] : List Char)
      rw [hTaken, hNil] at hMore
      exact hMore (List.append_eq_nil_iff.1 hWhole).2
  obtain ⟨ts, hCuts, hEntries, hRange⟩ := hSpells
  rw [Cluster.flatMap_entries_concat] at hEntries hRange
  have hRun := layoutGlyphs_of_run (f := f) (q := q) hSome hCuts
    (Machine.takeAll?_entries rfl hEntries hRange)
    (Machine.required?_filled (Machine.placeAll_mode rfl _) c.last)
  rw [hRun, String.toList_ofList, ← hTaken]
  exact congrArg _ (Machine.finish_clusters f q hLast)

omit [ExactNegation α] in
/-
  A machine takes all entries of a text; if there are indices or
  characters at all, it has placed a glyph by then or gets one.
-/
theorem Spells.run
    {indices text : List Char}
    {es : List (Entry α)}
    (h : Spells indices es)
    (hSome : text ≠ [] ∨ indices ≠ []) :
    ∃ ts last,
      Cuts indices ts ∧
        (Machine.initial q text).takeAll? f q ts = some last ∧
        Machine.Mode.required? last.mode = none ∧
        (last.pending = true ∨ last.text ≠ [] ∨ last.glyphs ≠ []) := by
  obtain ⟨init, last, rfl⟩ :=
    (List.eq_nil_or_concat es).resolve_left h.ne_nil
  rw [List.concat_eq_append] at h
  obtain ⟨ts, hCuts, hEntries, hRange⟩ := h
  refine ⟨ts, _, hCuts, Machine.takeAll?_entries rfl hEntries hRange,
    Machine.required?_filled (Machine.placeAll_mode rfl _) last, ?_⟩
  rcases List.eq_nil_or_concat init with rfl | ⟨init, e, rfl⟩
  · rcases hSome with hText | hIndices
    · exact .inr (.inl (by rw [Machine.filled_text]; exact hText))
    · refine .inl (Machine.filled_pending _ fun hFields => ?_)
      rcases entries_eq_cons hEntries with ⟨-, hTokens⟩ | ⟨_, -, hMore⟩
      · apply hCuts.ne_nil hIndices
        rw [hTokens, Entry.tokens, hFields]
        rfl
      · exact List.splitOnP_ne_nil _ _ hMore
  · refine .inr (.inr ?_)
    rw [Machine.filled_glyphs, List.concat_eq_append, Machine.placeAll_append]
    exact List.ne_nil_of_length_eq_add_one (Machine.length_emit_glyphs f q _)

section Joined

variable
  {text first second : String}
  {cs : List (Cluster α)}
  {own : GlyphLayout α}
  {pen : Point α}
  (hFirst : Spells first.toList (cs.flatMap Cluster.entries))
  (hOwn : Cluster.layout f q q.origin cs text.toList = own)
  (hPen : penAfter f q q.origin (cs.flatMap Cluster.entries) own.glyphs = pen)

include hFirst hOwn hPen

/-
  Indices behind complete clusters and a semicolon are run as
  if they were alone, after the glyphs of the clusters.
-/
theorem layoutGlyphs_joined
    {us : List (Token α)}
    {last : Machine α}
    (hSecond : Cuts second.toList us)
    (hTaken :
      (Machine.fresh pen (Cluster.left cs text.toList) [] []).takeAll? f q
          us =
        some last)
    (hMode : Machine.Mode.required? last.mode = none) :
    layoutGlyphs f q text (some (first ++ ";" ++ second)) =
      .ok ((last.after own.glyphs.reverse own.clusters.reverse).finish
        f q) := by
  obtain ⟨ts, hCuts, hEntries, hRange⟩ := hFirst
  obtain ⟨-, hPlaced⟩ :=
    Machine.placeAll_clusters f q q.origin text.toList [] [] cs
  rw [hOwn, hPen, List.append_nil, List.append_nil] at hPlaced
  have hText :
      (first ++ ";" ++ second).toList =
        first.toList ++ ';' :: second.toList := by
    simp
  have hRun :
      (Machine.initial q text.toList).takeAll? f q
          (ts ++ .semicolon :: us) =
        some (last.after own.glyphs.reverse own.clusters.reverse) :=
    calc (Machine.initial q text.toList).takeAll? f q
          (ts ++ .semicolon :: us)
        = ((Machine.fresh q.origin text.toList [] []).placeAll f q
            (cs.flatMap Cluster.entries)).takeAll? f q us :=
          Machine.takeAll?_entries_semicolon rfl hEntries hRange us
      _ = ((Machine.fresh pen (Cluster.left cs text.toList) [] []).after
            own.glyphs.reverse own.clusters.reverse).takeAll? f q us := by
          rw [hPlaced]
          rfl
      _ = some (last.after own.glyphs.reverse own.clusters.reverse) := by
          rw [Machine.takeAll?_after, hTaken]
          rfl
  exact layoutGlyphs_of_run (.inr (by simp)) (hText ▸ hCuts.append hSecond)
    hRun hMode

/- Behind them there may be neither indices nor text. -/
theorem layoutGlyphs_joined_nil
    (hLeft : Cluster.left cs text.toList = []) :
    layoutGlyphs f q text (some (first ++ ";" ++ "")) = .ok own := by
  have hGlyphs : own.glyphs.reverse ≠ [] := by
    have hLength :=
      (Machine.placeAll_clusters f q q.origin text.toList [] [] cs).1
    have hSome := List.length_pos_iff.2 hFirst.ne_nil
    rw [Ne, List.reverse_eq_nil_iff, ← List.length_eq_zero_iff, ← hOwn,
      hLength]
    omega
  have hFinish :
      ((Machine.fresh pen [] [] []).after own.glyphs.reverse
          own.clusters.reverse).finish f q =
        ⟨own.glyphs.reverse.reverse ++ [],
          own.clusters.reverse.reverse ++ []⟩ :=
    Machine.finish_fresh f q (.inr hGlyphs)
  rw [List.reverse_reverse, List.reverse_reverse, List.append_nil,
    List.append_nil] at hFinish
  have hCuts : Cuts "".toList ([] : List (Token α)) := by
    rw [String.toList_empty]
    exact cuts_iff_lexes.2 .nil
  rw [layoutGlyphs_joined hFirst hOwn hPen hCuts rfl rfl, hLeft, hFinish]

/- Otherwise they lay out the text that the clusters leave. -/
theorem layoutGlyphs_joined_some
    {more : List (Entry α)}
    (hSecond : Spells second.toList more)
    (hSome : Cluster.left cs text.toList ≠ [] ∨ second.toList ≠ []) :
    ∃ rest,
      layoutGlyphs f { q with origin := pen }
          (String.ofList (Cluster.left cs text.toList)) (some second) =
        .ok rest ∧
      layoutGlyphs f q text (some (first ++ ";" ++ second)) =
        .ok (own.append rest) := by
  obtain ⟨us, last, hCuts, hTaken, hMode, hGlyph⟩ :=
    hSecond.run (f := f) (q := { q with origin := pen }) hSome
  refine ⟨last.finish f q, ?_, ?_⟩
  · rw [layoutGlyphs_of_run (by simpa using hSome) hCuts
      (by rw [String.toList_ofList]; exact hTaken) hMode,
      Machine.finish_moved]
  · rw [layoutGlyphs_joined hFirst hOwn hPen hCuts hTaken hMode,
      Machine.finish_after f q _ _ hGlyph, List.reverse_reverse,
      List.reverse_reverse]
    rfl

end Joined

/- As many semicolons as there are characters are no indices. -/
theorem layoutGlyphs_semicolons
    {text : String}
    {k : Nat}
    (hText : text ≠ "")
    (hLength : k ≤ text.length) :
    layoutGlyphs f q text (some (String.ofList (List.replicate k ';'))) =
      layoutGlyphs f q text none := by
  have hCuts :
      Cuts (String.ofList (List.replicate k ';')).toList
        (List.replicate k (.semicolon : Token α)) := by
    rw [String.toList_ofList]
    exact cuts_semicolons k
  obtain ⟨last, hTaken, hMode, hFinish⟩ :=
    Machine.takeAll?_semicolons f q q.origin text.toList [] [] (k := k)
      (by rwa [String.length_toList]) (.inl (by simpa using hText))
  rw [(layoutGlyphs_empty f q hText).2,
    layoutGlyphs_of_run (.inl hText) hCuts hTaken hMode, hFinish]
  rfl

end Indices

/-
  Glyph indices can be cut at a semicolon behind complete
  clusters whose last entry gives a field or has a character in
  front of it. What is before the semicolon lays out the text
  that its clusters take, each glyph by the fields of its own
  entry; what is behind it lays out the rest of the text from
  where the signed advances have moved the pen. Hence semicolons
  alone, no more than there are characters, are as good as no
  indices.
-/
theorem layoutGlyphs_append
    [ExactNegation α]
    (f : ScaledFont α)
    (q : Placement α)
    (text : String) :
    (∀ (first second : String)
        (cs : List (Indices.Cluster α))
        (c : Indices.Cluster α)
        (more : List (Indices.Entry α)),
      let es := (cs ++ [c]).flatMap Indices.Cluster.entries
      let own := Indices.Cluster.layout f q q.origin (cs ++ [c]) text.toList
      let taken := Indices.Cluster.taken (cs ++ [c]) text.toList
      let left := Indices.Cluster.left (cs ++ [c]) text.toList
      let pen := Indices.penAfter f q q.origin es own.glyphs
      Indices.Spells first.toList es →
      Indices.Spells second.toList more →
      c.last.fields ≠ [] ∨ Indices.Cluster.left cs text.toList ≠ [] →
      taken ++ left = text.toList ∧
        layoutGlyphs f q (String.ofList taken) (some first) = .ok own ∧
        own.glyphs.length = es.length ∧
        ∃ rest,
          layoutRest f { q with origin := pen } (String.ofList left) second =
            .ok rest ∧
          layoutGlyphs f q text (some (first ++ ";" ++ second)) =
            .ok (own.append rest)) ∧
    ∀ k, 1 ≤ k → k ≤ text.length →
      layoutGlyphs f q text (some (String.ofList (List.replicate k ';'))) =
        layoutGlyphs f q text none := by
  constructor
  · intro first second cs c more es own taken left pen hFirst hSecond hLast
    refine ⟨Indices.Cluster.taken_append_left _ _,
      Indices.layoutGlyphs_taken hFirst hLast,
      (Indices.Machine.placeAll_clusters f q q.origin text.toList [] []
        (cs ++ [c])).1, ?_⟩
    by_cases hNone : left = [] ∧ second = ""
    · obtain ⟨hLeft, rfl⟩ := hNone
      refine ⟨.empty, by rw [hLeft]; rfl, ?_⟩
      rw [Indices.layoutGlyphs_joined_nil hFirst rfl rfl hLeft]
      simp [GlyphLayout.append, GlyphLayout.empty, own]
    · have hSome : left ≠ [] ∨ second.toList ≠ [] := by
        rw [not_and_or] at hNone
        simpa using hNone
      rw [layoutRest, if_neg (by simpa using hNone)]
      exact Indices.layoutGlyphs_joined_some hFirst rfl rfl hSecond hSome
  · intro k hPositive hLength
    refine Indices.layoutGlyphs_semicolons ?_ hLength
    rintro rfl
    exact absurd hLength (Nat.not_le.2 hPositive)

section Ligature

open Indices

/- Two glyphs for two characters, the first one half an em wide. -/
def ligature : Cluster ℚ where
  first := ⟨some (2, some 2), some 5, some (.advance (some 50))⟩
  more := [⟨none, some 6, none⟩]
  complete := by decide +kernel
  plain := by simp

/- A ligature, and a character that is moved to the right. -/
theorem layoutGlyphs_append_ligature :
    let q : Placement ℚ := ⟨⟨0, 0⟩, false, false⟩
    let own : GlyphLayout ℚ :=
      ⟨[⟨5, ⟨0, 0⟩⟩, ⟨6, ⟨1 / 2, 0⟩⟩], [⟨2, 2⟩]⟩
    layoutGlyphs unitFont q "ab" (some "(2:2)5,50;6") = .ok own ∧
      (∃ rest,
        layoutRest unitFont { q with origin := ⟨3 / 2, 0⟩ } "c" ",,30" =
            .ok rest ∧
          layoutGlyphs unitFont q "abc" (some "(2:2)5,50;6;,,30") =
            .ok (own.append rest)) ∧
      layoutGlyphs unitFont q "abc" (some ";;") =
        layoutGlyphs unitFont q "abc" none := by
  intro q own
  obtain ⟨hAppend, hSemicolons⟩ := layoutGlyphs_append unitFont q "abc"
  have hFirst :
      Spells "(2:2)5,50;6".toList
        (([] ++ [ligature]).flatMap Cluster.entries) :=
    ⟨[.openCluster, .number 2, .colon, .number 2, .closeCluster, .number 5,
        .comma, .number 50, .semicolon, .number 6],
      ⟨by decide +kernel, 11, by decide +kernel⟩, rfl, by decide +kernel⟩
  have hSecond :
      Spells ",,30".toList
        [(⟨none, none, some (.along none (some 30))⟩ : Entry ℚ)] :=
    ⟨[.comma, .comma, .number 30], ⟨by decide +kernel, 4, by decide +kernel⟩,
      rfl, by decide +kernel⟩
  obtain ⟨-, hOwn, -, rest, hRest, hWhole⟩ :=
    hAppend "(2:2)5,50;6" ",,30" [] ligature _ hFirst hSecond
      (.inl (List.cons_ne_nil _ _))
  have hLayout :
      Cluster.layout unitFont q q.origin ([] ++ [ligature]) "abc".toList =
        own := by
    decide +kernel
  have hPen :
      penAfter unitFont q q.origin
          (([] ++ [ligature]).flatMap Cluster.entries) own.glyphs =
        ⟨3 / 2, 0⟩ := by
    decide +kernel
  rw [hLayout] at hOwn hRest hWhole
  rw [hPen] at hRest
  exact ⟨hOwn, ⟨rest, hRest, hWhole⟩, hSemicolons 2 (by decide) (by decide)⟩

end Ligature

end FixedPage
