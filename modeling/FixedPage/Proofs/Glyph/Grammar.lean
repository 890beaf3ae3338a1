import FixedPage.Proofs.Glyph.Reading

/-
  This file states which glyph indices are accepted. An entry
  may give clusters, indices and metrics in any order and any
  number of times, so long as metrics are read as far as they
  go. The grammar asks for at most one of each in their order;
  indices that are accepted keep to it exactly if every entry
  does.

  Main declarations:
    * `Reads`
    * `InGrammar`
    * `Underway`
    * `takesAll_iff`
    * `layoutGlyphs_accepts`
-/

namespace FixedPage

namespace Indices

variable {α : Type}

------------------------------------------------------------
-- Order of fields
------------------------------------------------------------

/- Clusters come before indices, indices before metrics. -/
def Field.rank : Field α → Nat
| .cluster _ _ => 0
| .index _ => 1
| .metrics _ => 2

/- No field of a row is repeated, and none is out of order. -/
def InOrder
    (row : List (Field α)) : Prop :=
  (row.map Field.rank).IsChain (· < ·)

instance
    (row : List (Field α)) : Decidable (InOrder row) :=
  inferInstanceAs (Decidable (List.IsChain _ _))

/- The fields after one in order have higher ranks. -/
theorem InOrder.rank_lt
    {a : Field α}
    {row : List (Field α)}
    (h : InOrder (a :: row)) :
    ∀ b ∈ row.head?, a.rank < b.rank := by
  intro b hB
  cases row with
  | nil => cases hB
  | cons c row =>
      cases hB
      exact h.rel

theorem InOrder.tail
    {a : Field α}
    {row : List (Field α)}
    (h : InOrder (a :: row)) : InOrder row :=
  List.IsChain.tail h

/- Nothing comes after metrics. -/
theorem InOrder.metrics?
    {row : List (Field α)}
    (h : InOrder row)
    (hFirst : ∀ a ∈ row.head?, 1 < a.rank) :
    ∃ metrics?, (Option.map Field.metrics metrics?).toList = row := by
  cases row with
  | nil => exact ⟨none, rfl⟩
  | cons a row =>
      cases a with
      | metrics given =>
          cases row with
          | nil => exact ⟨some given, rfl⟩
          | cons b row =>
              have hRank := h.rank_lt b rfl
              cases b <;> simp [Field.rank] at hRank
      | _ => simp [Field.rank] at hFirst

/- Only metrics come after an index. -/
theorem InOrder.index?
    {row : List (Field α)}
    (h : InOrder row)
    (hFirst : ∀ a ∈ row.head?, 0 < a.rank) :
    ∃ index? metrics?,
      (Option.map Field.index index?).toList ++
        (Option.map Field.metrics metrics?).toList = row := by
  cases row with
  | nil => exact ⟨none, none, rfl⟩
  | cons a row =>
      cases a with
      | cluster units glyphs? => simp [Field.rank] at hFirst
      | index x =>
          obtain ⟨metrics?, rfl⟩ := h.tail.metrics? h.rank_lt
          exact ⟨some x, metrics?, rfl⟩
      | metrics given =>
          obtain ⟨metrics?, hRow⟩ := h.metrics? (by simp [Field.rank])
          exact ⟨none, metrics?, hRow⟩

/- The rows in order are those of the entries of the grammar. -/
theorem inOrder_iff
    {row : List (Field α)} :
    InOrder row ↔ ∃ e : Entry α, e.fields = row := by
  constructor
  · intro h
    cases row with
    | nil => exact ⟨⟨none, none, none⟩, rfl⟩
    | cons a row =>
        cases a with
        | cluster units glyphs? =>
            obtain ⟨index?, metrics?, rfl⟩ := h.tail.index? h.rank_lt
            exact ⟨⟨some (units, glyphs?), index?, metrics?⟩, by
              simp [Entry.fields]⟩
        | index x =>
            obtain ⟨index?, metrics?, hRow⟩ := h.index? (by simp [Field.rank])
            exact ⟨⟨none, index?, metrics?⟩, hRow⟩
        | metrics given =>
            obtain ⟨index?, metrics?, hRow⟩ := h.index? (by simp [Field.rank])
            exact ⟨⟨none, index?, metrics?⟩, hRow⟩
  · rintro ⟨⟨_ | ⟨units, glyphs?⟩, _ | x, _ | given⟩, rfl⟩ <;>
      simp [InOrder, Entry.fields, Field.rank]

------------------------------------------------------------
-- Fields told from their tokens
------------------------------------------------------------

/- A number in front, if there is one, and the tokens after it. -/
def cutValue : List (Token α) → Option α × List (Token α)
| .number x :: ts => (some x, ts)
| ts => (none, ts)

/- The first field of some tokens and the tokens after it. -/
def cutField? : List (Token α) → Option (Field α × List (Token α))
| .openCluster :: .number units :: .closeCluster :: ts =>
    some (.cluster units none, ts)
| .openCluster :: .number units :: .colon :: .number glyphs ::
    .closeCluster :: ts =>
    some (.cluster units (some glyphs), ts)
| .number x :: ts => some (.index x, ts)
| .comma :: ts =>
    match cutValue ts with
    | (advance?, .comma :: ts) =>
        match cutValue ts with
        | (u?, .comma :: .number v :: ts) =>
            some (.metrics (.across advance? u? v), ts)
        | (u?, ts) => some (.metrics (.along advance? u?), ts)
    | (advance?, ts) => some (.metrics (.advance advance?), ts)
| _ => none

/- A field is cut where it takes no token on. -/
theorem cutField?_tokens
    {a : Field α}
    {ts : List (Token α)}
    (hEnds : ∀ t ∈ ts.head?, a.takesOn t = false) :
    cutField? (a.tokens ++ ts) = some (a, ts) := by
  cases a with
  | cluster units glyphs? => cases glyphs? <;> rfl
  | index x => rfl
  | metrics given =>
      rcases ts with _ | ⟨t, ts⟩
      · rcases given with (_ | a) | ⟨_ | a, _ | u⟩ | ⟨_ | a, _ | u, v⟩ <;> rfl
      · have hT := hEnds t rfl
        rcases given with (_ | a) | ⟨_ | a, _ | u⟩ | ⟨_ | a, _ | u, v⟩ <;>
          cases t <;>
          first
          | rfl
          | cases hT

/- Rows that are separate are told from their tokens. -/
theorem rowTokens_injective
    {row other : List (Field α)}
    (hRow : Separate row)
    (hOther : Separate other)
    (h : rowTokens row = rowTokens other) : row = other := by
  induction row generalizing other with
  | nil => exact (rowTokens_eq_nil h.symm).symm
  | cons a row ih =>
      cases other with
      | nil => exact rowTokens_eq_nil h
      | cons b other =>
          have hFirst := cutField?_tokens hRow.ends
          rw [← rowTokens_cons, h, rowTokens_cons,
            cutField?_tokens hOther.ends, Option.some.injEq,
            Prod.mk.injEq] at hFirst
          obtain ⟨rfl, hTokens⟩ := hFirst
          rw [ih hRow.tail hOther.tail hTokens.symm]

/- Rows are told from their tokens. -/
theorem rows_injective
    {rows others : List (List (Field α))}
    (hRows : ∀ row ∈ rows, Separate row)
    (hOthers : ∀ row ∈ others, Separate row)
    (h : rows.map rowTokens = others.map rowTokens) : rows = others := by
  induction rows generalizing others with
  | nil => exact (List.map_eq_nil_iff.1 h.symm).symm
  | cons row rows ih =>
      cases others with
      | nil => cases h
      | cons other others =>
          rw [List.map_cons, List.map_cons, List.cons.injEq] at h
          rw [rowTokens_injective (hRows row (.head _))
              (hOthers other (.head _)) h.1,
            ih (fun r hR => hRows r (.tail _ hR))
              (fun r hR => hOthers r (.tail _ hR)) h.2]

/- Rows in order are those of some entries of the grammar. -/
theorem rows_inOrder_iff
    {rows : List (List (Field α))} :
    (∀ row ∈ rows, InOrder row) ↔
      ∃ es : List (Entry α), es.map Entry.fields = rows := by
  induction rows with
  | nil => exact ⟨fun _ => ⟨[], rfl⟩, fun _ => nofun⟩
  | cons row rows ih =>
      rw [List.forall_mem_cons, ih, inOrder_iff]
      constructor
      · rintro ⟨⟨e, rfl⟩, es, rfl⟩
        exact ⟨e :: es, rfl⟩
      · rintro ⟨_ | ⟨e, es⟩, h⟩
        · cases h
        · rw [List.map_cons, List.cons.injEq] at h
          exact ⟨⟨e, h.1⟩, es, h.2⟩

------------------------------------------------------------
-- Rows that are accepted
------------------------------------------------------------

section

variable [Scalar α]

/- A field more, where the last one takes no token of it on. -/
theorem Accepted.snoc
    {row : List (Field α)}
    {a : Field α}
    (h : Accepted row)
    (hEnds : ∀ last ∈ row.getLast?, last.EndsAt a)
    (hRange : a.InRange) : Accepted (row ++ [a]) := by
  constructor
  · refine h.separate.append (.singleton a) ?_
    intro last hLast b hB
    cases hB
    exact hEnds last hLast
  · intro b hB
    rcases List.mem_append.1 hB with hB | hB
    · exact h.inRange b hB
    · rw [List.mem_singleton.1 hB]
      exact hRange

/- A field less. -/
theorem Accepted.init
    {row : List (Field α)}
    {a : Field α}
    (h : Accepted (row ++ [a])) :
    Accepted row ∧ ∀ last ∈ row.getLast?, last.EndsAt a := by
  obtain ⟨hSeparate, hRange⟩ := h
  refine ⟨⟨hSeparate.left_of_append, fun b hB => hRange b ?_⟩, ?_⟩
  · exact List.mem_append_left _ hB
  · intro last hLast
    exact List.isChain_append.1 hSeparate |>.2.2 last hLast a rfl

/- A text is read as rows of fields between semicolons. -/
def Reads
    (indices : List Char)
    (rows : List (List (Field α))) : Prop :=
  ∃ ts, Cuts indices ts ∧
    entries ts = rows.map rowTokens ∧ ∀ row ∈ rows, Accepted row

/- A text is made of entries of the grammar. -/
def InGrammar
    (α : Type)
    [Scalar α]
    (indices : List Char) : Prop :=
  ∃ (ts : List (Token α)) (es : List (Entry α)),
    Cuts indices ts ∧ entries ts = es.map Entry.tokens

/- Indices that are read keep to the grammar if each row does. -/
theorem Reads.inGrammar_iff
    {indices : List Char}
    {rows : List (List (Field α))}
    (h : Reads indices rows) :
    InGrammar α indices ↔ ∀ row ∈ rows, InOrder row := by
  obtain ⟨ts, hCuts, hEntries, hRows⟩ := h
  rw [rows_inOrder_iff]
  constructor
  · rintro ⟨us, es, hCuts', hEs⟩
    have hSame : us = ts := hCuts'.1.symm.trans hCuts.1
    rw [hSame, hEntries] at hEs
    refine ⟨es, (rows_injective (fun row hRow => (hRows row hRow).separate)
      ?_ ?_).symm⟩
    · intro row hRow
      obtain ⟨e, -, rfl⟩ := List.mem_map.1 hRow
      exact e.separate
    · rw [hEs, List.map_map]
      rfl
  · rintro ⟨es, rfl⟩
    exact ⟨ts, es, hCuts, by rw [hEntries, List.map_map]; rfl⟩

------------------------------------------------------------
-- Reading token by token
------------------------------------------------------------

/- A field that lacks tokens yet. -/
inductive Part (α : Type) where
  | opened
  | counted
      (units : α)
  | colon
      (units : α)
  | spread
      (units glyphs : α)
  | across
      (advance? u? : Option α)

/- The tokens of a part so far. -/
def Part.tokens : Part α → List (Token α)
| .opened => [.openCluster]
| .counted units => [.openCluster, .number units]
| .colon units => [.openCluster, .number units, .colon]
| .spread units glyphs =>
    [.openCluster, .number units, .colon, .number glyphs]
| .across advance? u? =>
    .comma :: (numberTokens advance? ++ .comma :: (numberTokens u? ++ [.comma]))

/- The mode in which a part is read on. -/
def Part.mode : Part α → Mode
| .opened => .codeUnits
| .counted _ => .afterCodeUnits
| .colon _ => .clusterGlyphs
| .spread _ _ => .clusterEnd
| .across _ _ => .vertical

/- The tokens of an entry so far, and the mode that they lead to. -/
inductive Underway : List (Token α) → Mode → Prop
  | row
      {row : List (Field α)}
      (hRow : Accepted row) :
      Underway (rowTokens row) (rowMode row)
  | part
      {row : List (Field α)}
      {part : Part α}
      (hRow : Accepted row)
      (hEnds :
        ∀ last ∈ row.getLast?, ∀ t ∈ part.tokens.head?,
          last.takesOn t = false) :
      Underway (rowTokens row ++ part.tokens) part.mode

/- The row after one more field. -/
theorem Underway.snoc
    {row : List (Field α)}
    {a : Field α}
    (hRow : Accepted row)
    (hEnds : ∀ last ∈ row.getLast?, last.EndsAt a)
    (hRange : a.InRange) :
    Underway (rowTokens row ++ a.tokens) a.mode := by
  have h := Underway.row (hRow.snoc hEnds hRange)
  rw [rowTokens_append, rowTokens_cons, rowTokens_nil, List.append_nil,
    rowMode, List.getLast?_concat] at h
  exact h

/- A part that goes on is part of the same field. -/
theorem Underway.more
    {row : List (Field α)}
    {part : Part α}
    (next : Part α)
    {t : Token α}
    (hRow : Accepted row)
    (hEnds :
      ∀ last ∈ row.getLast?, ∀ t ∈ part.tokens.head?,
        last.takesOn t = false)
    (hNext : next.tokens = part.tokens ++ [t]) :
    Underway (rowTokens row ++ part.tokens ++ [t]) next.mode := by
  have hHead : next.tokens.head? = part.tokens.head? := by
    rw [hNext]
    cases part <;> rfl
  rw [List.append_assoc, ← hNext]
  exact .part hRow (by rwa [hHead])

/- A part that gets its last token is a field. -/
theorem Underway.complete
    {row : List (Field α)}
    {part : Part α}
    {a : Field α}
    {t : Token α}
    (hRow : Accepted row)
    (hEnds :
      ∀ last ∈ row.getLast?, ∀ t ∈ part.tokens.head?,
        last.takesOn t = false)
    (hField : a.tokens = part.tokens ++ [t])
    (hRange : a.InRange) :
    Underway (rowTokens row ++ part.tokens ++ [t]) a.mode := by
  have hHead : a.tokens.head? = part.tokens.head? := by
    rw [hField]
    cases part <;> rfl
  rw [List.append_assoc, ← hField]
  refine .snoc hRow (fun last hLast => ?_) hRange
  rw [Field.EndsAt, hHead]
  exact hEnds last hLast

open FixedPage.Indices.Machine

variable {f : ScaledFont α} {q : Placement α} {m next : Machine α}

/- A token that a part is read on with. -/
theorem Underway.take_part
    {row : List (Field α)}
    {part : Part α}
    {t : Token α}
    (hRow : Accepted row)
    (hEnds :
      ∀ last ∈ row.getLast?, ∀ t ∈ part.tokens.head?,
        last.takesOn t = false)
    (hMode : m.mode = part.mode)
    (hNext : m.take? f q t = some next) :
    Underway (rowTokens row ++ part.tokens ++ [t]) next.mode := by
  rw [take?] at hNext
  cases part with
  | opened =>
      cases t <;> simp only [step, hMode, Part.mode] at hNext <;> cases hNext
      exact .more (.counted _) hRow hEnds rfl
  | counted units =>
      cases t <;> simp only [step, hMode, Part.mode] at hNext <;> cases hNext
      · exact .more (.colon units) hRow hEnds rfl
      · exact .complete hRow hEnds (a := .cluster units none) rfl trivial
  | colon units =>
      cases t <;> simp only [step, hMode, Part.mode] at hNext <;> cases hNext
      exact .more (.spread units _) hRow hEnds rfl
  | spread units glyphs =>
      cases t <;> simp only [step, hMode, Part.mode] at hNext <;> cases hNext
      exact .complete hRow hEnds (a := .cluster units (some glyphs)) rfl trivial
  | across advance? u? =>
      cases t <;> simp only [step, hMode, Part.mode] at hNext <;> cases hNext
      rename_i v
      refine .complete hRow hEnds
        (a := .metrics (.across advance? u? v)) ?_ trivial
      simp [Field.tokens, Metrics.tokens, Part.tokens]

/- A token that the last metrics of a row take on. -/
theorem Underway.take_metrics
    {row : List (Field α)}
    {given : Metrics α}
    {t : Token α}
    (hRow : Accepted (row ++ [.metrics given]))
    (hTakes : given.takesOn t = true)
    (hMode : m.mode = (Field.metrics given).mode)
    (hNext : m.take? f q t = some next) :
    Underway (rowTokens (row ++ [.metrics given]) ++ [t]) next.mode := by
  obtain ⟨hInit, hEnds⟩ := hRow.init
  -- the metrics begin with the same comma before and after
  have hGoesOn (other : Metrics α) (hOther : other.tokens = given.tokens ++ [t]) :
      Underway (rowTokens (row ++ [.metrics given]) ++ [t])
        (Field.metrics other).mode := by
    have h : Underway (rowTokens row ++ (Field.metrics other).tokens)
        (Field.metrics other).mode := by
      refine .snoc hInit (fun last hLast u hU => hEnds last hLast u ?_) trivial
      cases other <;> cases given <;> exact hU
    rw [Field.tokens, hOther, ← List.append_assoc] at h
    rwa [rowTokens_append, rowTokens_cons, rowTokens_nil, List.append_nil]
  have hComma (a? u? : Option α) (hGiven : given = .along a? u?) (hT : t = .comma) :
      Underway (rowTokens (row ++ [.metrics given]) ++ [t])
        (Part.across a? u?).mode := by
    subst hGiven hT
    have h : Underway (rowTokens row ++ (Part.across a? u?).tokens)
        (Part.across a? u?).mode :=
      .part hInit hEnds
    simpa [Part.tokens, Field.tokens, Metrics.tokens] using h
  rw [take?] at hNext
  rcases given with (_ | a) | ⟨a?, _ | u⟩ | ⟨a?, u?, v⟩ <;>
    cases t <;> cases hTakes <;>
    simp only [step, hMode, Field.mode] at hNext <;> cases hNext
  · rename_i a
    exact hGoesOn (.advance (some a)) rfl
  · exact hGoesOn (.along none none) rfl
  · exact hGoesOn (.along (some a) none) rfl
  · rename_i u
    exact hGoesOn (.along a? (some u)) (by simp [Metrics.tokens, numberTokens])
  · exact hComma a? none rfl rfl
  · exact hComma a? (some u) rfl rfl

/- A token that begins a field. -/
theorem Underway.take_first
    {row : List (Field α)}
    {t : Token α}
    (hRow : Accepted row)
    (hEnds : ∀ last ∈ row.getLast?, last.takesOn t = false)
    (hReady : m.Ready f q t)
    (hPlain : t.isSemicolon = false)
    (hNext : m.take? f q t = some next) :
    Underway (rowTokens row ++ [t]) next.mode := by
  have hFirst (a : Field α) (hA : a.tokens.head? = some t) :
      ∀ last ∈ row.getLast?, last.EndsAt a := by
    intro last hLast u hU
    rw [hA] at hU
    cases hU
    exact hEnds last hLast
  rw [hReady] at hNext
  cases t with
  | number x =>
      simp only [dispatch] at hNext
      split at hNext
      · rename_i hRange
        cases hNext
        exact .snoc hRow (hFirst (.index x) rfl) hRange
      · cases hNext
  | comma =>
      cases hNext
      exact .snoc hRow (hFirst (.metrics (.advance none)) rfl) trivial
  | openCluster =>
      cases hNext
      refine @Underway.part _ _ _ .opened hRow (fun last hLast u hU => ?_)
      cases hU
      exact hEnds last hLast
  | semicolon => cases hPlain
  | colon => cases hNext
  | closeCluster => cases hNext
  | stray c => cases hNext

/- A token of an entry. -/
theorem Underway.take
    {taken : List (Token α)}
    {t : Token α}
    (h : Underway taken m.mode)
    (hPlain : t.isSemicolon = false)
    (hNext : m.take? f q t = some next) :
    Underway (taken ++ [t]) next.mode := by
  generalize hMode : m.mode = mode at h
  cases h with
  | part hRow hEnds => exact .take_part hRow hEnds hMode hNext
  | @row row hRow =>
      by_cases hEnds : ∀ last ∈ row.getLast?, last.takesOn t = false
      · exact .take_first hRow hEnds (ready_of_row hMode hEnds) hPlain hNext
      · push Not at hEnds
        obtain ⟨last, hLast, hTakes⟩ := hEnds
        obtain ⟨init, rfl⟩ := List.getLast?_eq_some_iff.1 hLast
        cases last with
        | cluster units glyphs? => cases hTakes rfl
        | index x => cases hTakes rfl
        | metrics given =>
            rw [rowMode, List.getLast?_concat] at hMode
            exact .take_metrics hRow (by simpa [Field.takesOn] using hTakes)
              hMode hNext

/- A semicolon is taken only after a row of fields. -/
theorem Underway.take_semicolon
    {taken : List (Token α)}
    (h : Underway taken m.mode)
    (hNext : m.take? f q .semicolon = some next) :
    next.mode = .entry ∧ ∃ row, Accepted row ∧ taken = rowTokens row := by
  generalize hMode : m.mode = mode at h
  cases h with
  | @part row part hRow hEnds =>
      cases part <;> simp only [take?, step, hMode, Part.mode] at hNext <;>
        cases hNext
  | @row row hRow =>
      have hReady : m.Ready f q .semicolon :=
        ready_of_row hMode fun last _ => takesOn_semicolon last
      rw [hReady] at hNext
      cases hNext
      exact ⟨emit_mode f q m, row, hRow, rfl⟩

/- The data may end only after a row of fields. -/
theorem Underway.required?_eq_none
    {taken : List (Token α)}
    {mode : Mode}
    (h : Underway taken mode)
    (hMode : Mode.required? mode = none) :
    ∃ row, Accepted row ∧ taken = rowTokens row := by
  cases h with
  | @part row part hRow hEnds => cases part <;> cases hMode
  | @row row hRow => exact ⟨row, hRow, rfl⟩

/-
  The tokens that a machine takes after those of an entry under
  way: rows of fields, and what is under way in the end.
-/
theorem Underway.takeAll
    {taken ts : List (Token α)}
    {last : Machine α}
    (h : Underway taken m.mode)
    (hPlain : ∀ t ∈ taken, t.isSemicolon = false)
    (hLast : m.takeAll? f q ts = some last) :
    ∃ (rows : List (List (Field α))) (rest : List (Token α)),
      entries (taken ++ ts) = rows.map rowTokens ++ [rest] ∧
        (∀ row ∈ rows, Accepted row) ∧ Underway rest last.mode := by
  induction ts generalizing taken m with
  | nil =>
      cases hLast
      refine ⟨[], taken, ?_, List.forall_mem_nil _, h⟩
      rw [List.append_nil]
      exact List.splitOnP_eq_singleton hPlain
  | cons t ts ih =>
      rw [takeAll?_cons] at hLast
      obtain ⟨next, hNext, hMore⟩ := Option.bind_eq_some_iff.1 hLast
      cases hT : t.isSemicolon with
      | false =>
          have hTail := ih (h.take hT hNext) ?_ hMore
          · rwa [List.append_assoc] at hTail
          · intro u hU
            rcases List.mem_append.1 hU with hU | hU
            · exact hPlain u hU
            · rw [List.mem_singleton.1 hU, hT]
      | true =>
          have hSemicolon : t = .semicolon := by
            cases t <;> simp_all [Token.isSemicolon]
          subst hSemicolon
          obtain ⟨hMode, row, hRow, rfl⟩ := h.take_semicolon hNext
          have hEmpty : Underway ([] : List (Token α)) next.mode := by
            rw [hMode]
            exact .row .nil
          obtain ⟨rows, rest, hEntries, hRows, hRest⟩ :=
            ih hEmpty (List.forall_mem_nil _) hMore
          refine ⟨row :: rows, rest, ?_, ?_, hRest⟩
          · rw [entries_row_cons]
            rw [List.nil_append] at hEntries
            rw [hEntries]
            rfl
          · exact List.forall_mem_cons.2 ⟨hRow, hRows⟩

/- Rows between semicolons are taken by a machine in front of an entry. -/
theorem takeAll?_rows
    {rows : List (List (Field α))}
    {ts : List (Token α)}
    (hMode : m.mode = .entry)
    (hEntries : entries ts = rows.map rowTokens)
    (hRows : ∀ row ∈ rows, Accepted row) :
    ∃ last, m.takeAll? f q ts = some last ∧
      Mode.required? last.mode = none := by
  induction rows generalizing m ts with
  | nil => exact absurd hEntries (List.splitOnP_ne_nil _ _)
  | cons row rows ih =>
      obtain ⟨hRow, hMore⟩ := List.forall_mem_cons.1 hRows
      rcases entries_eq_cons hEntries with ⟨-, rfl⟩ | ⟨rest, rfl, hRest⟩
      · refine ⟨row.foldl Field.fill m, ?_, ?_⟩
        · exact takeAll?_row (fun t _ => ready_of_entry hMode t)
            hRow.separate hRow.inRange
        · rw [foldl_fill_mode hMode]
          exact required?_rowMode row
      · rw [takeAll?_row_semicolon hMode hRow]
        exact ih (emit_mode f q _) hRest hMore

/-
  The machine takes tokens to their end if and only if they are
  rows of fields between semicolons.
-/
theorem takesAll_iff
    {text : List Char}
    {ts : List (Token α)} :
    (∃ last, (initial q text).takeAll? f q ts = some last ∧
        Mode.required? last.mode = none) ↔
      ∃ rows : List (List (Field α)),
        entries ts = rows.map rowTokens ∧ ∀ row ∈ rows, Accepted row := by
  constructor
  · rintro ⟨last, hLast, hMode⟩
    have hStart : Underway ([] : List (Token α)) (initial q text).mode :=
      .row .nil
    obtain ⟨rows, rest, hEntries, hRows, hRest⟩ :=
      hStart.takeAll nofun hLast
    obtain ⟨row, hRow, rfl⟩ := hRest.required?_eq_none hMode
    refine ⟨rows ++ [row], ?_, ?_⟩
    · rwa [List.map_append]
    · intro other hOther
      rcases List.mem_append.1 hOther with hOther | hOther
      · exact hRows other hOther
      · rw [List.mem_singleton.1 hOther]
        exact hRow
  · rintro ⟨rows, hEntries, hRows⟩
    exact takeAll?_rows rfl hEntries hRows

end

end Indices

------------------------------------------------------------
-- Glyph runs
------------------------------------------------------------

variable {α : Type} [Scalar α]

/-
  Glyph indices are accepted, whatever the font and the text, if
  and only if each of their entries is a row of fields in some
  order; they are then made of entries of the grammar if and
  only if no row repeats a field or has one out of order. All
  others are rejected for a fault of the indices.
-/
theorem layoutGlyphs_accepts
    (f : ScaledFont α)
    (q : Placement α)
    (text indices : String)
    (hSome : indices ≠ "") :
    ((∃ layout, layoutGlyphs f q text (some indices) = .ok layout) ↔
      ∃ rows : List (List (Indices.Field α)),
        Indices.Reads indices.toList rows) ∧
    (∀ rows : List (List (Indices.Field α)),
      Indices.Reads indices.toList rows →
        (Indices.InGrammar α indices.toList ↔
          ∀ row ∈ rows, Indices.InOrder row)) ∧
    ∀ fault, layoutGlyphs f q text (some indices) = .error fault →
      ∃ cause, fault = .indices cause := by
  refine ⟨?_, fun rows hReads => hReads.inGrammar_iff, ?_⟩
  · simp only [layoutGlyphs_some_eq_ok_iff hSome, Indices.layout_eq_ok_iff]
    constructor
    · rintro ⟨_, ts, last, hCuts, hTaken, hMode, -⟩
      obtain ⟨rows, hRows⟩ := Indices.takesAll_iff.1 ⟨last, hTaken, hMode⟩
      exact ⟨rows, ts, hCuts, hRows⟩
    · rintro ⟨rows, ts, hCuts, hRows⟩
      obtain ⟨last, hTaken, hMode⟩ := Indices.takesAll_iff.2 ⟨rows, hRows⟩
      exact ⟨_, ts, last, hCuts, hTaken, hMode, rfl⟩
  · intro fault hFault
    rw [layoutGlyphs_some f q text hSome] at hFault
    cases hLayout : Indices.layout f q text.toList indices.toList with
    | ok layout => rw [hLayout] at hFault; cases hFault
    | error cause =>
        rw [hLayout] at hFault
        exact ⟨cause, (Except.error.inj hFault).symm⟩

section Disorder

open Indices

/- The fields of "5(2:1)6,10+7". -/
def disorderedRow : List (Indices.Field ℚ) :=
  [.index 5, .cluster 2 (some 1), .index 6, .metrics (.advance (some 10)),
    .index 7]

/- A cluster after an index, and an index after an advance. -/
theorem layoutGlyphs_disordered :
    let q : Placement ℚ := ⟨⟨0, 0⟩, false, false⟩
    "5(2:1)6,10+7" ≠ "" ∧
      (∃ layout,
        layoutGlyphs unitFont q "abc" (some "5(2:1)6,10+7") = .ok layout) ∧
      ¬InGrammar ℚ "5(2:1)6,10+7".toList := by
  intro q
  have hSome : "5(2:1)6,10+7" ≠ "" := by decide
  have hAccepts := layoutGlyphs_accepts unitFont q "abc" "5(2:1)6,10+7" hSome
  have hReads : Reads "5(2:1)6,10+7".toList [disorderedRow] := by
    refine ⟨rowTokens disorderedRow, ⟨?_, 12, ?_⟩, entries_row _, ?_⟩
    · decide +kernel
    · decide +kernel
    · exact List.forall_mem_singleton.2 ⟨by decide, by decide +kernel⟩
  refine ⟨hSome, hAccepts.1.2 ⟨_, hReads⟩, fun hIn => ?_⟩
  have hOrder := (hAccepts.2.1 _ hReads).1 hIn _ (.head _)
  exact absurd hOrder (by decide)

end Disorder

end FixedPage
