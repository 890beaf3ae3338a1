import FixedPage.Glyph.Indices
import FixedPage.Proofs.Scalar.Exact

/-
  This file compares the glyphs of a run with the glyphs that
  its clusters account for. A countdown follows the machine: it
  is set by each glyph count that the indices give and runs
  down with each glyph placed. Clusters never account for more
  glyphs than there are; they account for fewer when a count is
  zero, when a count is given while a cluster is under way, or
  when the data ends in the middle of a cluster with no text
  left.

  Main declarations:
    * `Indices.Countdown`
    * `Indices.AccountsForAll`
    * `layoutGlyphs_clusteredGlyphs`
-/

namespace FixedPage

/- The glyphs that the clusters of a layout account for. -/
def GlyphLayout.clusteredGlyphs
    {α : Type}
    (layout : GlyphLayout α) : Nat :=
  (layout.clusters.map TextCluster.glyphs).sum

namespace Indices

------------------------------------------------------------
-- Glyph counts in the indices
------------------------------------------------------------

section Counts

variable {α : Type}

/- Whether a token ends an entry. -/
def Token.isSemicolon : Token α → Bool
| .semicolon => true
| _ => false

/- The entries of glyph indices: what semicolons separate. -/
def entries
    (tokens : List (Token α)) : List (List (Token α)) :=
  tokens.splitOnP Token.isSemicolon

/- The glyph count that an entry gives: the last after a colon. -/
def glyphCount?
    [Scalar α] : List (Token α) → Option Nat
| .colon :: .number x :: rest =>
    (glyphCount? rest).or (some (countOf x))
| _ :: rest => glyphCount? rest
| [] => none

/-
  The glyph counts of the entries that get a glyph. The entry
  at the end gets none if it is empty, no text is left for it
  and another entry is before it.
-/
def placedCounts
    [Scalar α]
    (textLeft : Bool)
    (tokens : List (Token α)) : List (Option Nat) :=
  let es := entries tokens
  if (es.getLastD []).isEmpty && !textLeft && decide (1 < es.length) then
    es.dropLast.map glyphCount?
  else es.map glyphCount?

/-
  Glyphs that the cluster under way has to come after one more
  entry, if the entry keeps to it: only the first entry of a
  cluster gives a count, and the count is positive.
-/
def due? : Nat → Option Nat → Option Nat
| 0, none => some 0
| 0, some count => if count = 0 then none else some (count - 1)
| due + 1, none => some due
| _ + 1, some _ => none

end Counts

------------------------------------------------------------
-- Countdown
------------------------------------------------------------

/-
  Glyphs placed so far, glyphs that the clusters so far account
  for, and the countdown of the cluster under way.
-/
structure Countdown where
  placed : Nat
  counted : Nat
  spread : Nat
  remaining : Nat

namespace Countdown

/- A glyph count is given. -/
def give
    (c : Countdown)
    (count : Nat) : Countdown :=
  { c with spread := count, remaining := count }

/- An entry gives its glyph count, if it has one. -/
def giveAny
    (c : Countdown) : Option Nat → Countdown
| none => c
| some count => c.give count

/- A glyph is placed. -/
def place
    (c : Countdown) : Countdown :=
  if c.remaining ≤ 1 then ⟨c.placed + 1, c.counted + c.spread, 1, 1⟩
  else
    { c with
      placed := c.placed + 1
      remaining := c.remaining - 1 }

/- An entry gives its count and gets its glyph. -/
def entry
    (c : Countdown)
    (count? : Option Nat) : Countdown :=
  (c.giveAny count?).place

/-
  Every glyph so far belongs to a cluster, ended or under way,
  and `due` glyphs of the one under way are to come.
-/
structure Settled
    (due : Nat)
    (c : Countdown) : Prop where
  whole : c.placed = c.counted + (c.spread - c.remaining)
  underway :
    (due = 0 ∧ c.spread = 1 ∧ c.remaining = 1) ∨
      (0 < due ∧ c.remaining = due ∧ due < c.spread)

/- Some glyph belongs to no cluster. -/
structure Short
    (c : Countdown) : Prop where
  fewer : c.counted + (c.spread - c.remaining) < c.placed
  positive : 0 < c.remaining
  bounded : c.remaining ≤ c.spread

/- The last glyph of a cluster ends it. -/
theorem place_last
    {c : Countdown}
    (h : c.remaining ≤ 1) :
    c.place = ⟨c.placed + 1, c.counted + c.spread, 1, 1⟩ :=
  if_pos h

/- Any other glyph takes one off the countdown. -/
theorem place_inner
    {c : Countdown}
    (h : 1 < c.remaining) :
    c.place = ⟨c.placed + 1, c.counted, c.spread, c.remaining - 1⟩ :=
  if_neg (Nat.not_le.2 h)

/- A glyph of a cluster that no count is given for any more. -/
theorem Settled.place
    {due : Nat}
    {c : Countdown}
    (h : c.Settled due) : c.place.Settled (due - 1) := by
  obtain ⟨hWhole, hUnderway⟩ := h
  rcases Nat.lt_or_ge 1 c.remaining with hLast | hLast
  · rw [place_inner hLast]
    exact ⟨by dsimp only; omega, by dsimp only; omega⟩
  · rw [place_last hLast]
    exact ⟨by dsimp only; omega, by dsimp only; omega⟩

/- The first glyph of a cluster that a count is given for. -/
theorem Settled.give_place
    {count : Nat}
    {c : Countdown}
    (h : c.Settled 0)
    (hCount : count ≠ 0) :
    (c.give count).place.Settled (count - 1) := by
  obtain ⟨hWhole, hUnderway⟩ := h
  rcases Nat.lt_or_ge 1 count with hLast | hLast
  · rw [place_inner (c := c.give count) hLast]
    exact ⟨by dsimp only [give]; omega, by dsimp only [give]; omega⟩
  · rw [place_last (c := c.give count) hLast]
    exact ⟨by dsimp only [give]; omega, by dsimp only [give]; omega⟩

/- A glyph placed leaves no other glyph out and none in. -/
theorem Short.place
    {c : Countdown}
    (h : c.Short) : c.place.Short := by
  obtain ⟨hFewer, hPositive, hBounded⟩ := h
  rcases Nat.lt_or_ge 1 c.remaining with hLast | hLast
  · rw [place_inner hLast]
    exact ⟨by dsimp only; omega, by dsimp only; omega, by dsimp only; omega⟩
  · rw [place_last hLast]
    exact ⟨by dsimp only; omega, Nat.one_pos, Nat.le_refl 1⟩

/-
  A glyph is left out for good when a count is given, and it
  does not count the glyph placed then or one placed before.
-/
theorem give_place_short
    {count : Nat}
    {c : Countdown}
    (h : c.counted < c.placed ∨ count = 0 ∧ c.counted ≤ c.placed) :
    (c.give count).place.Short := by
  rcases Nat.lt_or_ge 1 count with hLast | hLast
  · rw [place_inner (c := c.give count) hLast]
    exact ⟨by dsimp only [give]; omega, by dsimp only [give]; omega,
      by dsimp only [give]; omega⟩
  · rw [place_last (c := c.give count) hLast]
    exact ⟨by dsimp only [give]; omega, Nat.one_pos, Nat.le_refl 1⟩

/- An entry that keeps to its cluster leaves no glyph out. -/
theorem Settled.entry
    {due due' : Nat}
    {c : Countdown}
    {count? : Option Nat}
    (h : c.Settled due)
    (hDue : due? due count? = some due') :
    (c.entry count?).Settled due' := by
  match due, count? with
  | 0, none =>
      cases hDue
      exact h.place
  | 0, some count =>
      simp only [due?] at hDue
      split at hDue
      · cases hDue
      · rename_i hCount
        cases hDue
        exact h.give_place hCount
  | due + 1, none =>
      cases hDue
      exact h.place
  | due + 1, some count => cases hDue

/- An entry that does not keep to its cluster leaves one out. -/
theorem Settled.entry_short
    {due : Nat}
    {c : Countdown}
    {count? : Option Nat}
    (h : c.Settled due)
    (hDue : due? due count? = none) :
    (c.entry count?).Short := by
  obtain ⟨hWhole, hUnderway⟩ := h
  match due, count? with
  | 0, none => cases hDue
  | 0, some count =>
      simp only [due?] at hDue
      split at hDue
      · exact give_place_short (.inr ⟨‹_›, by omega⟩)
      · cases hDue
  | due + 1, none => cases hDue
  | due + 1, some count => exact give_place_short (.inl (by omega))

/- No entry brings a glyph back that was left out. -/
theorem Short.entry
    {c : Countdown}
    (h : c.Short)
    (count? : Option Nat) : (c.entry count?).Short := by
  cases count? with
  | none => exact h.place
  | some count =>
      have := h.fewer
      exact give_place_short (.inl (by omega))

/- What some entries make of the countdown. -/
theorem Short.entries
    {c : Countdown}
    (h : c.Short)
    (counts : List (Option Nat)) :
    (counts.foldl Countdown.entry c).Short := by
  induction counts generalizing c with
  | nil => exact h
  | cons count? counts ih => exact ih (h.entry count?)

/- Entries leave no glyph out if each keeps to its cluster. -/
theorem Settled.entries
    {due : Nat}
    {c : Countdown}
    (h : c.Settled due)
    (counts : List (Option Nat)) :
    match counts.foldlM due? due with
    | some due' => (counts.foldl Countdown.entry c).Settled due'
    | none => (counts.foldl Countdown.entry c).Short := by
  induction counts generalizing due c with
  | nil => exact h
  | cons count? counts ih =>
      simp only [List.foldlM_cons, List.foldl_cons]
      cases hDue : due? due count? with
      | none => exact (h.entry_short hDue).entries counts
      | some next => exact ih (h.entry hDue)

end Countdown

------------------------------------------------------------
-- The countdown of a machine
------------------------------------------------------------

namespace Machine

variable {α : Type} [Scalar α]

omit [Scalar α] in
/- The glyphs that the clusters of a machine account for. -/
def countdown
    (m : Machine α) : Countdown where
  placed := m.glyphs.length
  counted := (m.clusters.map TextCluster.glyphs).sum
  spread := m.spread
  remaining := m.remaining

/- Placing a glyph moves the countdown on. -/
@[simp] theorem countdown_emit
    (f : ScaledFont α)
    (q : Placement α)
    (m : Machine α) :
    (m.emit f q).countdown = m.countdown.place := by
  unfold emit Countdown.place countdown
  dsimp only
  split <;> simp [Nat.add_comm]

@[simp] theorem emit_mode
    (f : ScaledFont α)
    (q : Placement α)
    (m : Machine α) :
    (m.emit f q).mode = .entry := by
  unfold emit
  dsimp only
  split <;> rfl

@[simp] theorem emit_pending
    (f : ScaledFont α)
    (q : Placement α)
    (m : Machine α) :
    (m.emit f q).pending = false := by
  unfold emit
  dsimp only
  split <;> rfl

theorem emit_text_nil
    {m : Machine α}
    (f : ScaledFont α)
    (q : Placement α)
    (h : m.text = []) :
    (m.emit f q).text = [] := by
  unfold emit
  dsimp only
  split
  · simp [h]
  · exact h

/- Only the end of a cluster takes text. -/
theorem emit_text
    (f : ScaledFont α)
    (q : Placement α)
    (m : Machine α) :
    (m.emit f q).text = m.text ∨
      (m.emit f q).spread = 1 ∧ (m.emit f q).remaining = 1 := by
  unfold emit
  dsimp only
  split
  · exact .inr ⟨rfl, rfl⟩
  · exact .inl rfl

/- What a token does to the countdown, the mode and the entry. -/
inductive Taken
    (f : ScaledFont α)
    (q : Placement α)
    (m next : Machine α) : Token α → Prop
  | count
      (x : α)
      (hMode : m.mode = .clusterGlyphs)
      (hNext : next.mode = .clusterEnd)
      (hPending : next.pending = m.pending)
      (hCountdown : next.countdown = m.countdown.give (countOf x)) :
      Taken f q m next (.number x)
  | place
      (hMode : m.mode ≠ .clusterGlyphs)
      (hNext : next = m.emit f q) :
      Taken f q m next .semicolon
  | other
      (t : Token α)
      (hMode : m.mode ≠ .clusterGlyphs)
      (hPlain : t.isSemicolon = false)
      (hNext : next.mode = .clusterGlyphs ↔ t = .colon)
      (hPending :
        next.pending = true ∨
          m.mode ≠ .entry ∧ next.pending = m.pending)
      (hCountdown : next.countdown = m.countdown) :
      Taken f q m next t

/- A token taken as the start of something new. -/
theorem dispatch_taken
    {f : ScaledFont α}
    {q : Placement α}
    {m next : Machine α}
    {p : Placed α}
    (hMode : m.mode ≠ .clusterGlyphs)
    (h : m.dispatch f q p = .ok next) :
    Taken f q m next p.token := by
  obtain ⟨t, offset⟩ := p
  cases t with
  | number x =>
      simp only [dispatch] at h
      split at h
      · cases h
        exact .other _ hMode rfl (by simp) (.inl rfl) rfl
      · cases h
  | comma =>
      cases h
      exact .other _ hMode rfl (by simp) (.inl rfl) rfl
  | semicolon =>
      cases h
      exact .place hMode rfl
  | openCluster =>
      cases h
      exact .other _ hMode rfl (by simp) (.inl rfl) rfl
  | colon => cases h
  | closeCluster => cases h
  | stray c => cases h

/- A token that the machine takes. -/
theorem step_taken
    {f : ScaledFont α}
    {q : Placement α}
    {m next : Machine α}
    {p : Placed α}
    (h : m.step f q p = .ok next) :
    Taken f q m next p.token := by
  obtain ⟨t, offset⟩ := p
  simp only [step] at h
  split at h
  case h_6 x hMode =>
    cases h
    exact .count x hMode rfl rfl rfl
  case h_18 hMode _ _ _ _ _ _ _ _ _ _ _ _ _ _ =>
    exact dispatch_taken hMode h
  -- what is refused, and the other fields of an entry
  all_goals
    cases h
    try
      rename_i hMode
      exact .other _ (by simp [hMode]) rfl (by simp)
        (.inr ⟨by simp [hMode], rfl⟩) rfl

/-
  A machine in the middle of an entry, of which it has taken
  `taken`; `c` is the countdown when the entry began.
-/
structure Within
    (c : Countdown)
    (taken : List (Token α))
    (m : Machine α) : Prop where
  countdown : m.countdown = c.giveAny (glyphCount? taken)
  colon : m.mode = .clusterGlyphs ↔ taken.getLast? = some .colon
  pending : m.pending = !taken.isEmpty
  idle : taken = [] → m.mode = .entry
  plain : ∀ t ∈ taken, t.isSemicolon = false

end Machine

/- Only a colon with a number right after it gives a count. -/
theorem glyphCount?_cons_cons
    {α : Type}
    [Scalar α]
    {t u : Token α}
    (h : ∀ x, t = .colon → u = .number x → False)
    (rest : List (Token α)) :
    glyphCount? (t :: u :: rest) = glyphCount? (u :: rest) := by
  rw [glyphCount?]
  intro x tail hT hU
  exact h x hT (List.cons.inj hU).1

/- A token that no colon is right before gives no count. -/
theorem glyphCount?_append_other
    {α : Type}
    [Scalar α]
    {taken : List (Token α)}
    {t : Token α}
    (h : taken.getLast? ≠ some .colon) :
    glyphCount? (taken ++ [t]) = glyphCount? taken := by
  fun_induction glyphCount? taken with
  | case1 x rest ih =>
      have hRest : rest.getLast? ≠ some .colon := by
        cases rest with
        | nil => simp
        | cons u rest => simpa using h
      simp only [List.cons_append, glyphCount?, ih hRest]
  | case2 u rest hNe ih =>
      cases rest with
      | nil =>
          have hU : u ≠ .colon := by simpa using h
          cases u <;> cases t <;> simp_all [glyphCount?]
      | cons v rest =>
          have hRest := ih (by simpa using h)
          rw [List.cons_append, List.cons_append,
            glyphCount?_cons_cons (fun x hU hV => hNe x rest hU (by rw [hV])),
            ← List.cons_append, hRest]
  | case3 => cases t <;> rfl

/- A number right after a colon gives the count. -/
theorem glyphCount?_append_count
    {α : Type}
    [Scalar α]
    {taken : List (Token α)}
    (x : α)
    (h : taken.getLast? = some .colon) :
    glyphCount? (taken ++ [.number x]) = some (countOf x) := by
  fun_induction glyphCount? taken with
  | case1 y rest ih =>
      cases rest with
      | nil => simp at h
      | cons u rest =>
          have hRest := ih (by simpa using h)
          simp only [List.cons_append, glyphCount?] at hRest ⊢
          rw [hRest, Option.some_or]
  | case2 u rest hNe ih =>
      cases rest with
      | nil =>
          have hU : u = .colon := by simpa using h
          rw [hU]
          rfl
      | cons v rest =>
          have hRest := ih (by simpa using h)
          rw [List.cons_append, List.cons_append,
            glyphCount?_cons_cons (fun y hU hV => hNe y rest hU (by rw [hV])),
            ← List.cons_append, hRest]
  | case3 => cases h

namespace Machine

variable {α : Type} [Scalar α]

/- A token that does not end the entry. -/
theorem Within.extend
    {f : ScaledFont α}
    {q : Placement α}
    {c : Countdown}
    {taken : List (Token α)}
    {m next : Machine α}
    {t : Token α}
    (h : Within c taken m)
    (hT : t.isSemicolon = false)
    (hNext : Taken f q m next t) :
    Within c (taken ++ [t]) next := by
  have hPlain : ∀ u ∈ taken ++ [t], u.isSemicolon = false := by
    intro u hU
    rcases List.mem_append.1 hU with hU | hU
    · exact h.plain u hU
    · rw [List.mem_singleton.1 hU, hT]
  have hLast : (taken ++ [t]).getLast? = some t := by simp
  cases hNext with
  | count x hMode hNext hPending hCountdown =>
      have hColon := h.colon.1 hMode
      have hNe : taken.isEmpty = false := by
        cases taken with
        | nil => cases hColon
        | cons u rest => rfl
      refine ⟨?_, ?_, ?_, by simp, hPlain⟩
      · rw [hCountdown, h.countdown, glyphCount?_append_count x hColon]
        cases glyphCount? taken <;> rfl
      · simp [hNext, hLast]
      · simp [hPending, h.pending, hNe]
  | place hMode hNext => cases hT
  | other t hMode hPlain' hNext hPending hCountdown =>
      have hColon : taken.getLast? ≠ some .colon :=
        fun hColon => hMode (h.colon.2 hColon)
      refine ⟨?_, ?_, ?_, by simp, hPlain⟩
      · rw [hCountdown, h.countdown, glyphCount?_append_other hColon]
      · rw [hNext, hLast, Option.some.injEq]
      · rcases hPending with hPending | ⟨hEntry, hPending⟩
        · simp [hPending]
        · have hNe : taken.isEmpty = false :=
            List.isEmpty_eq_false_iff.2 (fun hNil => hEntry (h.idle hNil))
          simp [hPending, h.pending, hNe]

/- A semicolon ends the entry and starts the next one. -/
theorem Within.restart
    {f : ScaledFont α}
    {q : Placement α}
    {c : Countdown}
    {taken : List (Token α)}
    {m next : Machine α}
    (h : Within c taken m)
    (hNext : Taken f q m next .semicolon) :
    Within (c.entry (glyphCount? taken)) [] next := by
  cases hNext with
  | place hMode hNext =>
      subst hNext
      refine ⟨?_, by simp, by simp, by simp, by simp⟩
      rw [countdown_emit, h.countdown]
      rfl
  | other t hMode hPlain hNext hPending hCountdown => cases hPlain

/-
  What the tokens make of a machine that has taken `taken` of
  the entry under way.
-/
theorem Within.tokens
    {f : ScaledFont α}
    {q : Placement α}
    {c : Countdown}
    {taken : List (Token α)}
    {m last : Machine α}
    (h : Within c taken m)
    (ps : List (Placed α))
    (hLast : ps.foldlM (step f q) m = .ok last) :
    ∃ ended underway,
      entries (taken ++ ps.map Placed.token) = ended ++ [underway] ∧
        Within ((ended.map glyphCount?).foldl Countdown.entry c)
          underway last := by
  induction ps generalizing c taken m with
  | nil =>
      cases hLast
      refine ⟨[], taken, ?_, h⟩
      rw [List.map_nil, List.append_nil]
      exact List.splitOnP_eq_singleton h.plain
  | cons p ps ih =>
      rw [List.foldlM_cons] at hLast
      cases hStep : step f q m p with
      | error fault => rw [hStep] at hLast; cases hLast
      | ok next =>
          rw [hStep] at hLast
          have hNext := step_taken hStep
          cases hT : p.token.isSemicolon with
          | false =>
              have := ih (h.extend hT hNext) hLast
              rwa [List.append_assoc] at this
          | true =>
              have hSemicolon : p.token = .semicolon := by
                cases hToken : p.token <;> simp_all [Token.isSemicolon]
              rw [hSemicolon] at hNext
              obtain ⟨ended, underway, hEntries, hWithin⟩ :=
                ih (h.restart hNext) hLast
              refine ⟨taken :: ended, underway, ?_, hWithin⟩
              rw [List.nil_append] at hEntries
              rw [List.map_cons, entries,
                List.splitOnP_append_cons_of_forall_mem h.plain _ hT,
                ← entries, hEntries, List.cons_append]

------------------------------------------------------------
-- End of the data
------------------------------------------------------------

/-
  Text that is left is used up in whole clusters: no glyph is
  left out, and none is brought back.
-/
theorem drain_countdown
    (f : ScaledFont α)
    (q : Placement α)
    {m : Machine α}
    (hText : m.text ≠ []) :
    (∀ due, m.countdown.Settled due → (m.drain f q).countdown.Settled 0) ∧
      (m.countdown.Short → (m.drain f q).countdown.Short) := by
  fun_induction drain f q m with
  | case1 m h => exact absurd h hText
  | case2 m h _ ih =>
      by_cases hNext : (m.emit f q).text = []
      · have hSpread := (emit_text f q m).resolve_left
          (fun hSame => h (hSame ▸ hNext))
        rw [drain, dif_pos hNext, countdown_emit]
        refine ⟨fun due hSettled => ?_, fun hShort => hShort.place⟩
        have hPlace := hSettled.place
        have hOne : m.countdown.place.spread = 1 := by
          rw [← countdown_emit f q]
          exact hSpread.1
        have hZero : due - 1 = 0 := by
          have := hPlace.underway
          omega
        rwa [hZero] at hPlace
      · have hRest := ih hNext
        rw [countdown_emit] at hRest
        exact ⟨fun due hSettled => hRest.1 _ hSettled.place,
          fun hShort => hRest.2 hShort.place⟩

/-
  The machine that is left to place a glyph for the text: the
  entry under way has got its glyph, if it gets one.
-/
def lastEntry
    (f : ScaledFont α)
    (q : Placement α)
    (m : Machine α) : Machine α :=
  if m.pending || !m.text.isEmpty || m.glyphs.isEmpty then m.emit f q
  else m

/- The layout is what the machine has placed in the end. -/
theorem finish_eq
    (f : ScaledFont α)
    (q : Placement α)
    (m : Machine α) :
    m.finish f q =
      ⟨((m.lastEntry f q).drain f q).glyphs.reverse,
        ((m.lastEntry f q).drain f q).clusters.reverse⟩ := rfl

/- The glyphs placed and accounted for when the data has ended. -/
theorem finish_glyphs
    (f : ScaledFont α)
    (q : Placement α)
    (m : Machine α) :
    (m.finish f q).glyphs.length =
        ((m.lastEntry f q).drain f q).countdown.placed ∧
      (m.finish f q).clusteredGlyphs =
        ((m.lastEntry f q).drain f q).countdown.counted := by
  rw [finish_eq]
  constructor
  · exact List.length_reverse
  · simp [GlyphLayout.clusteredGlyphs, countdown]

/- The last entry leaves text only if there was text before it. -/
theorem lastEntry_text
    {f : ScaledFont α}
    {q : Placement α}
    {m : Machine α}
    (h : (m.lastEntry f q).text ≠ []) : m.text ≠ [] := by
  unfold lastEntry at h
  split at h
  · exact fun hNil => h (emit_text_nil f q hNil)
  · exact h

/- The last entry uses up the text only by ending its cluster. -/
theorem lastEntry_ends
    {f : ScaledFont α}
    {q : Placement α}
    {m : Machine α}
    (h : (m.lastEntry f q).text = [])
    (hText : m.text ≠ []) :
    (m.lastEntry f q).spread = 1 ∧ (m.lastEntry f q).remaining = 1 := by
  have hPlaced :
      (m.pending || !m.text.isEmpty || m.glyphs.isEmpty) = true := by
    simp [hText]
  simp only [lastEntry, hPlaced, if_true] at h ⊢
  exact (emit_text f q m).resolve_left (fun hSame => hText (hSame ▸ h))

end Machine

/- A count given is not placed yet. -/
theorem Countdown.giveAny_placed
    (c : Countdown)
    (count? : Option Nat) :
    (c.giveAny count?).placed = c.placed := by
  cases count? <;> rfl

/- Each entry places one glyph. -/
theorem Countdown.entries_placed
    (counts : List (Option Nat))
    (c : Countdown) :
    (counts.foldl Countdown.entry c).placed = c.placed + counts.length := by
  induction counts generalizing c with
  | nil => rfl
  | cons count? counts ih =>
      have hEntry : (c.entry count?).placed = c.placed + 1 := by
        rw [entry, place, ← giveAny_placed c count?]
        split <;> rfl
      rw [List.foldl_cons, ih, hEntry, List.length_cons]
      omega

variable {α : Type} [Scalar α]

namespace Machine

/- The glyph counts in terms of the last entry. -/
theorem placedCounts_of_entries
    {tokens : List (Token α)}
    {ended : List (List (Token α))}
    {underway : List (Token α)}
    (textLeft : Bool)
    (h : entries tokens = ended ++ [underway]) :
    placedCounts textLeft tokens =
      if underway.isEmpty && !textLeft && !ended.isEmpty then
        ended.map glyphCount?
      else ended.map glyphCount? ++ [glyphCount? underway] := by
  have hLength : decide (1 < (ended ++ [underway]).length) = !ended.isEmpty := by
    cases ended <;> simp
  have hLast : (ended ++ [underway]).getLastD [] = underway := by simp
  rw [placedCounts, h]
  simp only [hLast, hLength, List.dropLast_concat, List.map_append,
    List.map_singleton]

/- The countdown after the entries that get a glyph. -/
theorem lastEntry_countdown
    {f : ScaledFont α}
    {q : Placement α}
    {text : List Char}
    {ps : List (Placed α)}
    {m : Machine α}
    (h : ps.foldlM (step f q) (initial q text) = .ok m) :
    (m.lastEntry f q).countdown =
      (placedCounts (!m.text.isEmpty)
        (ps.map Placed.token)).foldl Countdown.entry ⟨0, 0, 1, 1⟩ := by
  have hStart :
      Within ⟨0, 0, 1, 1⟩ ([] : List (Token α)) (initial q text) :=
    ⟨rfl, by simp [initial], rfl, fun _ => rfl, by simp⟩
  obtain ⟨ended, underway, hEntries, hWithin⟩ := hStart.tokens ps h
  rw [List.nil_append] at hEntries
  have hEmpty : m.glyphs.isEmpty = ended.isEmpty := by
    have hPlaced := congrArg Countdown.placed hWithin.countdown
    rw [Countdown.giveAny_placed, Countdown.entries_placed,
      List.length_map, Nat.zero_add] at hPlaced
    have hLength : m.glyphs.length = ended.length := hPlaced
    cases hM : m.glyphs <;> cases ended <;> simp_all
  have hPlaced :
      (m.pending || !m.text.isEmpty || m.glyphs.isEmpty) =
        !(underway.isEmpty && !!m.text.isEmpty && !ended.isEmpty) := by
    rw [hWithin.pending, hEmpty]
    simp only [Bool.not_and, Bool.not_not]
  rw [placedCounts_of_entries (!m.text.isEmpty) hEntries, lastEntry, hPlaced]
  cases hLast : underway.isEmpty && !!m.text.isEmpty && !ended.isEmpty with
  | false =>
      simp only [Bool.not_false, if_true, Bool.false_eq_true, if_false,
        countdown_emit, hWithin.countdown, List.foldl_append]
      rfl
  | true =>
      have hNil : underway = [] := by simp_all
      simp only [Bool.not_true, Bool.false_eq_true, if_false, if_true,
        hWithin.countdown, hNil]
      rfl

end Machine

/-
  The indices account for every glyph: each entry that gets one
  keeps to its cluster, and the last cluster gets all of its
  glyphs unless text is left over, whose glyphs go on with it.
-/
def AccountsForAll
    (f : ScaledFont α)
    (q : Placement α)
    (text : List Char)
    (tokens : List (Placed α)) : Prop :=
  ∃ m, tokens.foldlM (Machine.step f q) (.initial q text) = .ok m ∧
    ∃ due,
      (placedCounts (!m.text.isEmpty)
        (tokens.map Placed.token)).foldlM due? 0 = some due ∧
      (due = 0 ∨ m.text ≠ [])

namespace Machine

/- A run that ends well has taken every token. -/
theorem run_ok
    {f : ScaledFont α}
    {q : Placement α}
    {ending : PathData.Ending}
    {m : Machine α}
    {ps : List (Placed α)}
    {layout : GlyphLayout α}
    (h : m.run f q ending ps = .ok layout) :
    ∃ last, ps.foldlM (step f q) m = .ok last ∧ last.finish f q = layout := by
  induction ps generalizing m with
  | nil =>
      simp only [run] at h
      split at h
      · cases h
      · split at h
        · cases h
        · exact ⟨m, rfl, Except.ok.inj h⟩
  | cons p ps ih =>
      simp only [run] at h
      split at h
      · rename_i next hNext
        obtain ⟨last, hLast, hFinish⟩ := ih h
        refine ⟨last, ?_, hFinish⟩
        rw [List.foldlM_cons, hNext]
        exact hLast
      · cases h

/-
  The clusters never account for more glyphs than there are, and
  they account for all of them exactly when the indices do.
-/
theorem finish_clusteredGlyphs
    {f : ScaledFont α}
    {q : Placement α}
    {text : List Char}
    {ps : List (Placed α)}
    {m : Machine α}
    (h : ps.foldlM (step f q) (initial q text) = .ok m) :
    (m.finish f q).clusteredGlyphs ≤ (m.finish f q).glyphs.length ∧
      ((m.finish f q).clusteredGlyphs = (m.finish f q).glyphs.length ↔
        AccountsForAll f q text ps) := by
  have hStart : Countdown.Settled 0 ⟨0, 0, 1, 1⟩ :=
    ⟨rfl, .inl ⟨rfl, rfl, rfl⟩⟩
  have hEntries := hStart.entries
    (placedCounts (!m.text.isEmpty) (ps.map Placed.token))
  rw [← lastEntry_countdown h] at hEntries
  obtain ⟨hPlaced, hCounted⟩ := finish_glyphs f q m
  rw [hPlaced, hCounted]
  have hAccounts :
      AccountsForAll f q text ps ↔
        ∃ due,
          (placedCounts (!m.text.isEmpty)
            (ps.map Placed.token)).foldlM due? 0 = some due ∧
          (due = 0 ∨ m.text ≠ []) := by
    rw [AccountsForAll, h]
    simp
  rw [hAccounts]
  cases hDue :
      (placedCounts (!m.text.isEmpty)
        (ps.map Placed.token)).foldlM due? 0 with
  | none =>
      rw [hDue] at hEntries
      have hShort : ((m.lastEntry f q).drain f q).countdown.Short := by
        by_cases hText : (m.lastEntry f q).text = []
        · rwa [drain, dif_pos hText]
        · exact (drain_countdown f q hText).2 hEntries
      have := hShort.fewer
      refine ⟨by omega, fun hEq => by omega, ?_⟩
      rintro ⟨due, hSome, -⟩
      cases hSome
  | some due =>
      rw [hDue] at hEntries
      by_cases hText : (m.lastEntry f q).text = []
      · rw [drain, dif_pos hText]
        have hWhole := hEntries.whole
        have hUnderway := hEntries.underway
        refine ⟨by omega, fun hEq => ⟨due, rfl, .inl (by omega)⟩, ?_⟩
        rintro ⟨due', hSome, hEnds⟩
        cases hSome
        rcases hEnds with hZero | hLeft
        · omega
        · obtain ⟨hSpread, hRemaining⟩ := lastEntry_ends hText hLeft
          have hSpread' : (m.lastEntry f q).countdown.spread = 1 := hSpread
          omega
      · have hSettled := (drain_countdown f q hText).1 due hEntries
        have hWhole := hSettled.whole
        have hUnderway := hSettled.underway
        exact ⟨by omega, fun _ => ⟨due, rfl, .inr (lastEntry_text hText)⟩,
          fun _ => by omega⟩

end Machine

/- No entries account for every glyph. -/
theorem accountsForAll_nil
    (f : ScaledFont α)
    (q : Placement α)
    (text : List Char) : AccountsForAll f q text [] := by
  refine ⟨.initial q text, rfl, 0, ?_, .inl rfl⟩
  have hEntries : entries ([] : List (Token α)) = [] ++ [[]] := rfl
  rw [List.map_nil, Machine.placedCounts_of_entries _ hEntries]
  simp [glyphCount?, due?]

end Indices

variable {α : Type} [Scalar α]

/- A text without indices gets one cluster for each glyph. -/
theorem GlyphLayout.ofText_clusteredGlyphs
    (f : ScaledFont α)
    (q : Placement α)
    (pen : Point α)
    (text : List Char) :
    (ofText f q pen text).clusteredGlyphs =
      (ofText f q pen text).glyphs.length := by
  induction text generalizing pen with
  | nil => rfl
  | cons c rest ih =>
      have hRest := ih ⟨pen.x + q.direct
        (q.naturalAdvance f (f.extents (f.glyph c))), pen.y⟩
      simp only [clusteredGlyphs] at hRest ⊢
      simp only [ofText, cons, List.map_cons, List.sum_cons,
        List.length_cons, hRest]
      omega

/-
  The clusters of a glyph run never account for more glyphs than
  the run has. They account for every glyph exactly when no
  glyph count of the indices is zero, none is given while a
  cluster is under way, and the last cluster is not cut short by
  the end of the indices.
-/
theorem layoutGlyphs_clusteredGlyphs
    (f : ScaledFont α)
    (q : Placement α)
    (text : String)
    (indices? : Option String)
    (layout : GlyphLayout α)
    (h : layoutGlyphs f q text indices? = .ok layout) :
    layout.clusteredGlyphs ≤ layout.glyphs.length ∧
      (layout.clusteredGlyphs = layout.glyphs.length ↔
        ∀ indices ∈ indices?,
          Indices.AccountsForAll f q text.toList
            (Indices.scan 0 indices.toList).tokens) := by
  cases hIndices : indices?.filter (fun indices => !indices.isEmpty) with
  | some indices =>
      obtain ⟨hSome, -⟩ := Option.filter_eq_some_iff.1 hIndices
      simp only [layoutGlyphs, hIndices] at h
      split at h
      · cases h
        rename_i hLayout
        obtain ⟨last, hLast, rfl⟩ := Indices.Machine.run_ok hLayout
        simp only [hSome, Option.mem_some_iff, forall_eq']
        exact Indices.Machine.finish_clusteredGlyphs hLast
      · cases h
  | none =>
      simp only [layoutGlyphs, hIndices] at h
      split at h
      · cases h
      · cases h
        have hAll := GlyphLayout.ofText_clusteredGlyphs f q q.origin text.toList
        refine ⟨hAll.le, fun _ indices hMem => ?_, fun _ => hAll⟩
        have hEmpty : indices = "" := by
          by_contra hNe
          rw [Option.mem_def.1 hMem] at hIndices
          simp [Option.filter, hNe] at hIndices
        rw [hEmpty, String.toList_empty, Indices.scan]
        exact Indices.accountsForAll_nil f q text.toList

section Shortfall

/- A font whose every glyph is a unit wide. -/
def unitFont : ScaledFont ℚ where
  font :=
    { glyph? := fun _ => some 1
      metrics := fun _ => ⟨1, ⟨0, 0, 1, 1⟩⟩
      ascent := 1
      descent := 0 }
  matrix := .identity

/- The tokens of "(1:0)5". -/
def zeroCountTokens : List (Indices.Placed ℚ) :=
  [⟨.openCluster, 0⟩, ⟨.number 1, 1⟩, ⟨.colon, 2⟩, ⟨.number 0, 3⟩,
    ⟨.closeCluster, 4⟩, ⟨.number 5, 5⟩]

/- What they make of a machine that has the text "a". -/
def zeroCountMachine : Indices.Machine ℚ where
  mode := .entry
  text := ['a']
  pen := ⟨0, 0⟩
  chars := 1
  spread := 0
  remaining := 0
  index? := some 5
  advance? := none
  offset := ⟨0, 0⟩
  pending := true
  glyphs := []
  clusters := []

/- A count of zero: one glyph, and a cluster without glyphs. -/
theorem layoutGlyphs_zeroCount :
    let q : Placement ℚ := ⟨⟨0, 0⟩, false, false⟩
    let layout : GlyphLayout ℚ := ⟨[⟨5, ⟨0, 0⟩⟩], [⟨1, 0⟩]⟩
    layoutGlyphs unitFont q "a" (some "(1:0)5") = .ok layout ∧
      layout.clusteredGlyphs ≤ layout.glyphs.length ∧
      (layout.clusteredGlyphs = layout.glyphs.length ↔
        ∀ indices ∈ some "(1:0)5",
          Indices.AccountsForAll unitFont q "a".toList
            (Indices.scan 0 indices.toList).tokens) := by
  intro q layout
  have hIndices :
      (some "(1:0)5").filter (fun indices => !indices.isEmpty) =
        some "(1:0)5" := by
    decide +kernel
  have hScan :
      Indices.scan 0 "(1:0)5".toList =
        ⟨zeroCountTokens, .complete 6⟩ := by
    decide +kernel
  have hRun :
      (Indices.Machine.initial q "a".toList).run unitFont q (.complete 6)
          zeroCountTokens =
        .ok (zeroCountMachine.finish unitFont q) := rfl
  have hDrain :
      (zeroCountMachine.lastEntry unitFont q).drain unitFont q =
        zeroCountMachine.lastEntry unitFont q := by
    rw [Indices.Machine.drain, dif_pos (by decide +kernel)]
  have hFinish : zeroCountMachine.finish unitFont q = layout := by
    rw [Indices.Machine.finish_eq, hDrain]
    decide +kernel
  have hLayout :
      layoutGlyphs unitFont q "a" (some "(1:0)5") = .ok layout := by
    simp only [layoutGlyphs, hIndices, Indices.layout, hScan, hRun, hFinish]
  exact ⟨hLayout,
    layoutGlyphs_clusteredGlyphs unitFont q "a" _ layout hLayout⟩

end Shortfall

end FixedPage
