import FixedPage.Proofs.Glyph.Clusters
import Mathlib.Data.List.Chain

/-
  This file reads glyph indices field by field. An entry may give
  a cluster, an index and metrics; a row of fields is cut where
  no field could take the next token on. The machine that lays
  out glyph runs takes such a row as a whole: each field fills
  its part of the machine, and a semicolon places the glyph.

  Main declarations:
    * `Cuts`
    * `Field`
    * `Field.fill`
    * `Machine.takeAll?`
    * `layout_eq_ok_iff`
    * `Machine.takeAll?_row`
-/

namespace FixedPage

namespace Indices

variable {α : Type}

------------------------------------------------------------
-- Fields
------------------------------------------------------------

/-
  The numbers that commas lead in: an advance, then an offset
  along the line, then one across it. Only the last of the
  three has to be a number once its comma is there.
-/
inductive Metrics (α : Type) where
  | advance
      (advance? : Option α)
  | along
      (advance? u? : Option α)
  | across
      (advance? u? : Option α)
      (v : α)
deriving DecidableEq, Repr

/- What an entry may give for its glyph. -/
inductive Field (α : Type) where
  | cluster
      (units : α)
      (glyphs? : Option α)
  | index
      (number : α)
  | metrics
      (given : Metrics α)
deriving DecidableEq, Repr

/- The token of a number that may be left out. -/
def numberTokens : Option α → List (Token α)
| none => []
| some x => [.number x]

/- The tokens of metrics. -/
def Metrics.tokens : Metrics α → List (Token α)
| .advance advance? => .comma :: numberTokens advance?
| .along advance? u? =>
    .comma :: (numberTokens advance? ++ .comma :: numberTokens u?)
| .across advance? u? v =>
    .comma :: (numberTokens advance? ++
      .comma :: (numberTokens u? ++ [.comma, .number v]))

/- The tokens of a field. -/
def Field.tokens : Field α → List (Token α)
| .cluster units none => [.openCluster, .number units, .closeCluster]
| .cluster units (some glyphs) =>
    [.openCluster, .number units, .colon, .number glyphs, .closeCluster]
| .index x => [.number x]
| .metrics given => given.tokens

/- The tokens of fields one after the other. -/
def rowTokens
    (row : List (Field α)) : List (Token α) :=
  row.flatMap Field.tokens

/- Metrics go on with a comma, and with a number that they lack. -/
def Metrics.takesOn : Metrics α → Token α → Bool
| .advance _, .comma => true
| .advance none, .number _ => true
| .along _ _, .comma => true
| .along _ none, .number _ => true
| _, _ => false

/- Whether a token right after a field would be part of it. -/
def Field.takesOn : Field α → Token α → Bool
| .metrics given, t => given.takesOn t
| _, _ => false

/- A field ends in front of another one. -/
def Field.EndsAt
    (a b : Field α) : Prop :=
  ∀ t ∈ b.tokens.head?, a.takesOn t = false

/- No field takes a semicolon on. -/
theorem takesOn_semicolon
    (a : Field α) : a.takesOn .semicolon = false := by
  rcases a with _ | _ | ((_ | a) | ⟨a?, _ | u⟩ | _) <;> rfl

/- Each field of a row ends where the next one begins. -/
def Separate
    (row : List (Field α)) : Prop :=
  row.IsChain Field.EndsAt

/- Glyph indices have a largest one and are not negative. -/
def Field.InRange
    [Scalar α] : Field α → Prop
| .index x =>
    (Scalar.le 0 x && Scalar.le x (Nat.cast maxIndex)) = true
| _ => True

instance
    (a b : Field α) : Decidable (a.EndsAt b) :=
  inferInstanceAs (Decidable (∀ t ∈ b.tokens.head?, a.takesOn t = false))

instance
    (row : List (Field α)) : Decidable (Separate row) :=
  inferInstanceAs (Decidable (List.IsChain Field.EndsAt row))

instance
    [Scalar α]
    (a : Field α) : Decidable a.InRange :=
  match a with
  | .index x =>
      inferInstanceAs
        (Decidable ((Scalar.le 0 x && Scalar.le x (Nat.cast maxIndex)) = true))
  | .cluster _ _ => .isTrue trivial
  | .metrics _ => .isTrue trivial

@[simp] theorem rowTokens_nil :
    rowTokens ([] : List (Field α)) = [] := rfl

@[simp] theorem rowTokens_cons
    (a : Field α)
    (row : List (Field α)) :
    rowTokens (a :: row) = a.tokens ++ rowTokens row := rfl

@[simp] theorem rowTokens_append
    (row more : List (Field α)) :
    rowTokens (row ++ more) = rowTokens row ++ rowTokens more :=
  List.flatMap_append

/- No field has a semicolon in it. -/
theorem Field.plain
    (a : Field α) :
    ∀ t ∈ a.tokens, t.isSemicolon = false := by
  cases a with
  | cluster units glyphs? =>
      cases glyphs? <;> simp [tokens, Token.isSemicolon]
  | index x => simp [tokens, Token.isSemicolon]
  | metrics given =>
      rcases given with (_ | a) | ⟨_ | a, _ | u⟩ | ⟨_ | a, _ | u, v⟩ <;>
        simp [tokens, Metrics.tokens, numberTokens, Token.isSemicolon]

/- No row has a semicolon in it. -/
theorem rowTokens_plain
    (row : List (Field α)) :
    ∀ t ∈ rowTokens row, t.isSemicolon = false := by
  intro t hT
  obtain ⟨a, -, hA⟩ := List.mem_flatMap.1 hT
  exact a.plain t hA

/- A field begins with some token. -/
theorem Field.tokens_ne_nil
    (a : Field α) : a.tokens ≠ [] := by
  cases a with
  | cluster units glyphs? => cases glyphs? <;> exact List.cons_ne_nil _ _
  | index x => exact List.cons_ne_nil _ _
  | metrics given => cases given <;> exact List.cons_ne_nil _ _

/- A row begins with the first token of its first field. -/
theorem head?_rowTokens
    (a : Field α)
    (row : List (Field α)) :
    (rowTokens (a :: row)).head? = a.tokens.head? := by
  obtain ⟨t, ts, hTokens⟩ := List.exists_cons_of_ne_nil a.tokens_ne_nil
  rw [rowTokens_cons, hTokens]
  rfl

theorem Separate.tail
    {a : Field α}
    {row : List (Field α)}
    (h : Separate (a :: row)) : Separate row :=
  List.IsChain.tail h

/- A field of a row takes no token of the next one on. -/
theorem Separate.ends
    {a : Field α}
    {row : List (Field α)}
    (h : Separate (a :: row)) :
    ∀ t ∈ (rowTokens row).head?, a.takesOn t = false := by
  intro t hT
  cases row with
  | nil => cases hT
  | cons b row =>
      rw [head?_rowTokens] at hT
      exact h.rel t hT

/- A row without tokens has no fields. -/
theorem rowTokens_eq_nil
    {row : List (Field α)}
    (h : rowTokens row = []) : row = [] := by
  cases row with
  | nil => rfl
  | cons a row =>
      rw [rowTokens_cons, List.append_eq_nil_iff] at h
      exact absurd h.1 a.tokens_ne_nil

------------------------------------------------------------
-- Entries of the grammar
------------------------------------------------------------

/-
  What the grammar lets an entry give: at most one cluster, one
  index and one row of metrics, in this order.
-/
structure Entry (α : Type) where
  cluster? : Option (α × Option α)
  index? : Option α
  metrics? : Option (Metrics α)
deriving DecidableEq, Repr

namespace Entry

/- The fields of an entry in their order. -/
def fields
    (e : Entry α) : List (Field α) :=
  (e.cluster?.map fun c => Field.cluster c.1 c.2).toList ++
    (e.index?.map Field.index).toList ++
    (e.metrics?.map Field.metrics).toList

/- The tokens of an entry. -/
def tokens
    (e : Entry α) : List (Token α) :=
  rowTokens e.fields

/- Only metrics take tokens on, and they come last. -/
theorem separate
    (e : Entry α) : Separate e.fields := by
  obtain ⟨_ | ⟨units, glyphs?⟩, _ | x, _ | given⟩ := e <;>
    simp [fields, Separate, Field.EndsAt, Field.takesOn]

end Entry

------------------------------------------------------------
-- Texts between semicolons
------------------------------------------------------------

/- Entries from the first one on. -/
theorem entries_eq_cons
    {ts entry : List (Token α)}
    {more : List (List (Token α))}
    (h : entries ts = entry :: more) :
    more = [] ∧ ts = entry ∨
      ∃ rest, ts = entry ++ .semicolon :: rest ∧ entries rest = more := by
  induction ts generalizing entry with
  | nil =>
      cases h
      exact .inl ⟨rfl, rfl⟩
  | cons t ts ih =>
      rw [entries, List.splitOnP_cons_eq_if_modifyHead] at h
      split at h
      · rename_i hT
        cases h
        have hSemicolon : t = .semicolon := by
          cases t <;> simp_all [Token.isSemicolon]
        exact .inr ⟨ts, by rw [hSemicolon]; rfl, rfl⟩
      · obtain ⟨first, others, hRest⟩ :=
          List.exists_cons_of_ne_nil (List.splitOnP_ne_nil Token.isSemicolon ts)
        rw [hRest] at h
        cases h
        rcases ih hRest with ⟨hMore, hFirst⟩ | ⟨rest, hFirst, hMore⟩
        · exact .inl ⟨hMore, by rw [hFirst]⟩
        · exact .inr ⟨rest, by rw [hFirst]; rfl, hMore⟩

/- A row alone is one entry. -/
theorem entries_row
    (row : List (Field α)) : entries (rowTokens row) = [rowTokens row] :=
  List.splitOnP_eq_singleton (rowTokens_plain row)

/- A semicolon ends a row. -/
theorem entries_row_cons
    (row : List (Field α))
    (ts : List (Token α)) :
    entries (rowTokens row ++ .semicolon :: ts) =
      rowTokens row :: entries ts :=
  List.splitOnP_append_cons_of_forall_mem (rowTokens_plain row) _ rfl _

section Machine

variable [Scalar α]

/- The fields of an entry that is accepted. -/
structure Accepted
    (row : List (Field α)) : Prop where
  separate : Separate row
  inRange : ∀ a ∈ row, a.InRange

theorem Accepted.nil :
    Accepted ([] : List (Field α)) :=
  ⟨.nil, nofun⟩

namespace Machine

------------------------------------------------------------
-- Tokens without their offsets
------------------------------------------------------------

/- What a token makes of a machine that takes it. -/
def take?
    (f : ScaledFont α)
    (q : Placement α)
    (m : Machine α)
    (t : Token α) : Option (Machine α) :=
  (m.step f q ⟨t, 0⟩).toOption

theorem take?_eq_some_iff
    {f : ScaledFont α}
    {q : Placement α}
    {m next : Machine α}
    {t : Token α} :
    m.take? f q t = some next ↔ m.step f q ⟨t, 0⟩ = .ok next := by
  rw [take?]
  cases m.step f q ⟨t, 0⟩ <;> simp [Except.toOption]

/- What tokens make of a machine that takes them all. -/
def takeAll?
    (f : ScaledFont α)
    (q : Placement α)
    (m : Machine α)
    (ts : List (Token α)) : Option (Machine α) :=
  ts.foldlM (take? f q) m

@[simp] theorem takeAll?_nil
    (f : ScaledFont α)
    (q : Placement α)
    (m : Machine α) : m.takeAll? f q [] = some m := rfl

theorem takeAll?_cons
    (f : ScaledFont α)
    (q : Placement α)
    (m : Machine α)
    (t : Token α)
    (ts : List (Token α)) :
    m.takeAll? f q (t :: ts) =
      (m.take? f q t).bind (fun next => next.takeAll? f q ts) := rfl

theorem takeAll?_append
    (f : ScaledFont α)
    (q : Placement α)
    (m : Machine α)
    (ts us : List (Token α)) :
    m.takeAll? f q (ts ++ us) =
      (m.takeAll? f q ts).bind (fun next => next.takeAll? f q us) :=
  List.foldlM_append

/- The offset of a token shows only in faults. -/
theorem dispatch_toOption
    (f : ScaledFont α)
    (q : Placement α)
    (m : Machine α)
    (p : Placed α) :
    (m.dispatch f q p).toOption = (m.dispatch f q ⟨p.token, 0⟩).toOption := by
  obtain ⟨t, offset⟩ := p
  cases t with
  | number x =>
      simp only [dispatch]
      split <;> rfl
  | _ => rfl

theorem step_toOption
    (f : ScaledFont α)
    (q : Placement α)
    (m : Machine α)
    (p : Placed α) :
    (m.step f q p).toOption = m.take? f q p.token := by
  obtain ⟨t, offset⟩ := p
  rw [take?]
  cases hMode : m.mode <;> cases t <;>
    simp only [step, hMode] <;>
    first
    | rfl
    | exact dispatch_toOption f q m _

/- Tokens are taken at whatever offsets they stand. -/
theorem foldlM_step_iff
    {f : ScaledFont α}
    {q : Placement α}
    {m last : Machine α}
    {ps : List (Placed α)} :
    ps.foldlM (step f q) m = .ok last ↔
      m.takeAll? f q (ps.map Placed.token) = some last := by
  induction ps generalizing m with
  | nil => simp [pure, Except.pure]
  | cons p ps ih =>
      rw [List.foldlM_cons, List.map_cons, takeAll?_cons, ← step_toOption]
      cases hStep : m.step f q p with
      | error fault => simp [Except.toOption, bind, Except.bind]
      | ok next => exact ih

/-
  A run succeeds if the text is cut into tokens, all of them are
  taken and the last field is not cut short.
-/
theorem run_eq_ok_iff
    {f : ScaledFont α}
    {q : Placement α}
    {m : Machine α}
    {ending : PathData.Ending}
    {ps : List (Placed α)}
    {layout : GlyphLayout α} :
    m.run f q ending ps = .ok layout ↔
      (∃ offset, ending = .complete offset) ∧
        ∃ last, m.takeAll? f q (ps.map Placed.token) = some last ∧
          Mode.required? last.mode = none ∧ last.finish f q = layout := by
  induction ps generalizing m with
  | nil =>
      cases ending with
      | malformed offset text => simp [run]
      | complete offset =>
          cases hMode : Mode.required? m.mode <;> simp [run, hMode]
  | cons p ps ih =>
      rw [run, List.map_cons, takeAll?_cons, ← step_toOption]
      cases m.step f q p with
      | error fault => simp [Except.toOption]
      | ok next => exact ih

end Machine

namespace Machine

------------------------------------------------------------
-- Clusters under way
------------------------------------------------------------

theorem drain_of_nil
    (f : ScaledFont α)
    (q : Placement α)
    {m : Machine α}
    (h : m.text = []) : m.drain f q = m := by
  rw [drain, dif_pos h]

theorem drain_of_ne
    (f : ScaledFont α)
    (q : Placement α)
    {m : Machine α}
    (h : m.text ≠ []) : m.drain f q = (m.emit f q).drain f q := by
  rw [drain, dif_neg h]

omit [Scalar α] in
/- A cluster without characters of its own takes the next one. -/
theorem clusterChars_of_zero
    {m : Machine α}
    (h : m.chars = 0) : m.clusterChars = min 1 m.text.length := by
  simp [clusterChars, h]

omit [Scalar α] in
theorem clusterChars_of_pos
    {m : Machine α}
    (h : 0 < m.chars) : m.clusterChars = m.chars := by
  simp [clusterChars, Nat.pos_iff_ne_zero.1 h]

/- Each glyph placed is a new one. -/
theorem length_emit_glyphs
    (f : ScaledFont α)
    (q : Placement α)
    (m : Machine α) :
    (m.emit f q).glyphs.length = m.glyphs.length + 1 := by
  unfold emit
  dsimp only
  split <;> exact List.length_cons

/- The cluster under way ends and takes its characters. -/
structure EndsCluster
    (m next : Machine α) : Prop where
  text : next.text = m.text.drop m.clusterChars
  chars : next.chars = 0
  spread : next.spread = 1
  remaining : next.remaining = 1
  clusters :
    next.clusters =
      ⟨utf8Length (m.text.take m.clusterChars), m.spread⟩ :: m.clusters

/- The cluster under way has one glyph less to come. -/
structure KeepsCluster
    (m next : Machine α) : Prop where
  text : next.text = m.text
  chars : next.chars = m.clusterChars
  spread : next.spread = m.spread
  remaining : next.remaining = m.remaining - 1
  clusters : next.clusters = m.clusters

theorem emit_last
    (f : ScaledFont α)
    (q : Placement α)
    {m : Machine α}
    (h : m.remaining ≤ 1) : m.EndsCluster (m.emit f q) := by
  constructor <;> simp [emit, h]

theorem emit_inner
    (f : ScaledFont α)
    (q : Placement α)
    {m : Machine α}
    (h : 1 < m.remaining) : m.KeepsCluster (m.emit f q) := by
  constructor <;> simp [emit, Nat.not_le.2 h]

omit [Scalar α] in
/- The characters of a cluster are chosen with its first glyph. -/
theorem KeepsCluster.clusterChars
    {m next : Machine α}
    (h : m.KeepsCluster next) : next.clusterChars = m.clusterChars := by
  rcases Nat.eq_zero_or_pos m.clusterChars with hZero | hSome
  · have hText : m.text = [] := by
      by_contra hNe
      have := clusterChars_pos hNe
      omega
    rw [clusterChars_of_zero (h.chars.trans hZero), h.text, hText, hZero]
    rfl
  · rw [clusterChars_of_pos (by rwa [h.chars]), h.chars]

end Machine

------------------------------------------------------------
-- Texts cut into tokens
------------------------------------------------------------

/- A text is cut into tokens, and its numbers are well formed. -/
def Cuts
    (indices : List Char)
    (ts : List (Token α)) : Prop :=
  (scan 0 indices).tokens.map Placed.token = ts ∧
    ∃ offset, (scan (α := α) 0 indices).ending = .complete offset

/- A layout is what the machine places for the tokens of a text. -/
theorem layout_eq_ok_iff
    {f : ScaledFont α}
    {q : Placement α}
    {text indices : List Char}
    {layout : GlyphLayout α} :
    Indices.layout f q text indices = .ok layout ↔
      ∃ ts last,
        Cuts indices ts ∧
          (Machine.initial q text).takeAll? f q ts = some last ∧
          Machine.Mode.required? last.mode = none ∧
          last.finish f q = layout := by
  rw [Indices.layout, Machine.run_eq_ok_iff]
  constructor
  · rintro ⟨hEnding, last, hTaken, hMode, hFinish⟩
    exact ⟨_, last, ⟨rfl, hEnding⟩, hTaken, hMode, hFinish⟩
  · rintro ⟨ts, last, ⟨rfl, hEnding⟩, hTaken, hMode, hFinish⟩
    exact ⟨hEnding, last, hTaken, hMode, hFinish⟩

------------------------------------------------------------
-- Fields as a whole
------------------------------------------------------------

/- The mode after a field. -/
def Field.mode : Field α → Mode
| .metrics (.advance none) => .advance
| .metrics (.advance (some _)) => .afterAdvance
| .metrics (.along _ none) => .horizontal
| .metrics (.along _ (some _)) => .afterHorizontal
| _ => .entry

/- The mode after a row of fields. -/
def rowMode
    (row : List (Field α)) : Mode :=
  (row.getLast?.map Field.mode).getD .entry

/- What a field fills in. -/
def Field.fill
    (m : Machine α)
    (a : Field α) : Machine α :=
  let number (x? : Option α) (old : α) : α :=
    (x?.map Machine.hundredths).getD old
  match a with
  | .cluster units none =>
      { m with
        mode := a.mode
        chars := charsOfUnits (countOf units) m.text
        pending := true }
  | .cluster units (some glyphs) =>
      { m with
        mode := a.mode
        chars := charsOfUnits (countOf units) m.text
        spread := countOf glyphs
        remaining := countOf glyphs
        pending := true }
  | .index x =>
      { m with
        mode := a.mode
        index? := some (Scalar.truncate x)
        pending := true }
  | .metrics (.advance advance?) =>
      { m with
        mode := a.mode
        advance? := (advance?.map Machine.hundredths).or m.advance?
        pending := true }
  | .metrics (.along advance? u?) =>
      { m with
        mode := a.mode
        advance? := (advance?.map Machine.hundredths).or m.advance?
        offset := ⟨number u? m.offset.x, m.offset.y⟩
        pending := true }
  | .metrics (.across advance? u? v) =>
      { m with
        mode := a.mode
        advance? := (advance?.map Machine.hundredths).or m.advance?
        offset := ⟨number u? m.offset.x, Machine.hundredths v⟩
        pending := true }

namespace Machine

/- The next token is the start of a field or ends the entry. -/
def Ready
    (f : ScaledFont α)
    (q : Placement α)
    (m : Machine α)
    (t : Token α) : Prop :=
  m.take? f q t = (m.dispatch f q ⟨t, 0⟩).toOption

theorem ready_of_entry
    {f : ScaledFont α}
    {q : Placement α}
    {m : Machine α}
    (hMode : m.mode = .entry)
    (t : Token α) : m.Ready f q t := by
  cases t <;> simp only [Ready, take?, step, hMode]

/- A token that a field does not take on starts something new. -/
theorem ready_of_field
    {f : ScaledFont α}
    {q : Placement α}
    {m : Machine α}
    {a : Field α}
    {t : Token α}
    (hMode : m.mode = a.mode)
    (hEnds : a.takesOn t = false) : m.Ready f q t := by
  rcases a with _ | _ | ((_ | a) | ⟨a?, _ | u⟩ | _) <;>
    simp only [Field.mode] at hMode <;>
    cases t <;>
    cases hEnds <;>
    simp only [Ready, take?, step, hMode]

/- A field is taken as a whole where it may begin. -/
theorem takeAll?_field
    {f : ScaledFont α}
    {q : Placement α}
    {m : Machine α}
    {a : Field α}
    (hReady : ∀ t ∈ a.tokens.head?, m.Ready f q t)
    (hRange : a.InRange) :
    m.takeAll? f q a.tokens = some (a.fill m) := by
  cases a with
  | cluster units glyphs? =>
      have hFirst := hReady .openCluster (by cases glyphs? <;> rfl)
      cases glyphs? <;>
        rw [Field.tokens, takeAll?_cons, hFirst] <;>
        rfl
  | index x =>
      have hFirst := hReady (.number x) rfl
      have hDispatch :
          m.dispatch f q ⟨.number x, 0⟩ = .ok ((Field.index x).fill m) :=
        if_pos hRange
      rw [Field.tokens, takeAll?_cons, hFirst, hDispatch]
      rfl
  | metrics given =>
      have hFirst := hReady .comma (by cases given <;> rfl)
      rcases given with (_ | a) | ⟨_ | a, _ | u⟩ | ⟨_ | a, _ | u, v⟩ <;>
        rw [Field.tokens, Metrics.tokens, takeAll?_cons, hFirst] <;>
        rfl

/- The field that is filled in last sets the mode. -/
theorem fill_mode
    (m : Machine α)
    (a : Field α) : (a.fill m).mode = a.mode := by
  rcases a with ⟨units, _ | glyphs⟩ | x | (_ | _ | _) <;> rfl

/- A row is taken as a whole where its first field may begin. -/
theorem takeAll?_row
    {f : ScaledFont α}
    {q : Placement α}
    {m : Machine α}
    {row : List (Field α)}
    (hReady : ∀ t ∈ (rowTokens row).head?, m.Ready f q t)
    (hSeparate : Separate row)
    (hRange : ∀ a ∈ row, a.InRange) :
    m.takeAll? f q (rowTokens row) = some (row.foldl Field.fill m) := by
  induction row generalizing m with
  | nil => rfl
  | cons a row ih =>
      rw [head?_rowTokens] at hReady
      rw [rowTokens_cons, takeAll?_append,
        takeAll?_field hReady (hRange a (.head _)), List.foldl_cons,
        Option.bind_some]
      exact ih
        (fun t hT => ready_of_field (fill_mode m a) (hSeparate.ends t hT))
        hSeparate.tail (fun b hB => hRange b (.tail _ hB))

omit [Scalar α] in
/- No row lacks a token at its end. -/
theorem required?_rowMode
    (row : List (Field α)) : Mode.required? (rowMode row) = none := by
  rw [rowMode]
  cases row.getLast? with
  | none => rfl
  | some last => rcases last with _ | _ | ((_ | a) | ⟨a?, _ | u⟩ | _) <;> rfl

/- A row leaves a machine in the mode of its last field. -/
theorem foldl_fill_mode
    {m : Machine α}
    {row : List (Field α)}
    (hMode : m.mode = .entry) :
    (row.foldl Field.fill m).mode = rowMode row := by
  rcases List.eq_nil_or_concat row with rfl | ⟨init, last, rfl⟩
  · exact hMode
  · rw [List.concat_eq_append, List.foldl_concat, fill_mode, rowMode, List.getLast?_concat]
    rfl

/- A row that a machine has taken is in the mode of its last field. -/
theorem ready_of_row
    {f : ScaledFont α}
    {q : Placement α}
    {m : Machine α}
    {row : List (Field α)}
    {t : Token α}
    (hMode : m.mode = rowMode row)
    (hEnds : ∀ last ∈ row.getLast?, last.takesOn t = false) :
    m.Ready f q t := by
  rw [rowMode] at hMode
  cases hLast : row.getLast? with
  | none =>
      rw [hLast] at hMode
      exact ready_of_entry hMode t
  | some last =>
      rw [hLast] at hMode
      exact ready_of_field hMode (hEnds last hLast)

/- An entry and its semicolon place a glyph. -/
theorem takeAll?_row_semicolon
    {f : ScaledFont α}
    {q : Placement α}
    {m : Machine α}
    {row : List (Field α)}
    (hMode : m.mode = .entry)
    (hRow : Accepted row)
    (ts : List (Token α)) :
    m.takeAll? f q (rowTokens row ++ .semicolon :: ts) =
      ((row.foldl Field.fill m).emit f q).takeAll? f q ts := by
  have hReady : (row.foldl Field.fill m).Ready f q .semicolon :=
    ready_of_row (foldl_fill_mode hMode) fun last _ => takesOn_semicolon last
  rw [takeAll?_append,
    takeAll?_row (fun t _ => ready_of_entry hMode t) hRow.separate hRow.inRange,
    Option.bind_some, takeAll?_cons, hReady]
  rfl

end Machine

end Machine

end Indices

------------------------------------------------------------
-- Glyph runs
------------------------------------------------------------

variable {α : Type} [Scalar α]

/- Glyph indices that are not empty are laid out by their machine. -/
theorem layoutGlyphs_some
    (f : ScaledFont α)
    (q : Placement α)
    (text : String)
    {indices : String}
    (hSome : indices ≠ "") :
    layoutGlyphs f q text (some indices) =
      (Indices.layout f q text.toList indices.toList).mapError .indices := by
  have hIndices :
      (some indices).filter (fun indices => !indices.isEmpty) =
        some indices := by
    simp [hSome]
  rw [layoutGlyphs, hIndices]
  cases hLayout : Indices.layout f q text.toList indices.toList <;>
    simp only [hLayout] <;> rfl

/- They are laid out successfully if the machine lays them out. -/
theorem layoutGlyphs_some_eq_ok_iff
    {f : ScaledFont α}
    {q : Placement α}
    {text indices : String}
    {layout : GlyphLayout α}
    (hSome : indices ≠ "") :
    layoutGlyphs f q text (some indices) = .ok layout ↔
      Indices.layout f q text.toList indices.toList = .ok layout := by
  rw [layoutGlyphs_some f q text hSome]
  cases Indices.layout f q text.toList indices.toList <;>
    simp [Except.mapError]

end FixedPage
