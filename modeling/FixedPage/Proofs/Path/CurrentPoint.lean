import FixedPage.Proofs.Path.Trace

/-
  This file shows that all who keep a current point agree on it. A
  path builder looks back for it among its segments; going forward,
  it is the end of the last segment, and after a close the point of
  the last move. The machine that evaluates path data keeps a point
  of its own, which is the builder's at every token.

  Main declarations:
    * `Standing`
    * `Standing.after`
    * `PathBuilder.currentPoint?_takeAll`
    * `PathData.Machine.Stands`
    * `PathData.Machine.stands_of_consumed`
    * `PathData.trace_currentPoint`
-/

namespace FixedPage

variable {α : Type}

------------------------------------------------------------
-- Going forward
------------------------------------------------------------

/-
  Where a path goes on from, and the point of its last move. There
  is no point before the first segment.
-/
structure Standing (α : Type) where
  pen? : Option (Point α)
  start? : Option (Point α)

namespace Standing

/- Before the first segment. -/
def initial : Standing α :=
  ⟨none, none⟩

/-
  A segment moves the pen to its end. A close moves it to the last
  move, or takes it away if there was none.
-/
def draw
    (s : Standing α) :
    Segment α → Standing α
| .moveTo p => ⟨some p, some p⟩
| .lineTo p => ⟨some p, s.start?⟩
| .curveTo _ _ p => ⟨some p, s.start?⟩
| .close => ⟨s.start?, s.start?⟩

/- A fill rule moves nothing. -/
def take
    (s : Standing α) :
    PathStep α → Standing α
| .draw segment => s.draw segment
| .rule _ => s

/- Where a path stands after some steps. -/
def after
    (steps : List (PathStep α)) : Standing α :=
  steps.foldl take initial

theorem after_append
    (steps more : List (PathStep α)) :
    after (steps ++ more) = more.foldl take (after steps) :=
  List.foldl_append

end Standing

------------------------------------------------------------
-- Looking back
------------------------------------------------------------

namespace PathBuilder

/- Where the path of a builder stands. -/
def standing
    (b : PathBuilder α) : Standing α :=
  b.recent.foldr (fun segment s => s.draw segment) .initial

/-
  Looking back from the last segment finds the pen; from a close on
  it finds the last move.
-/
theorem lookBack_standing
    (b : PathBuilder α) :
    lookBack false b.recent = b.standing.pen? ∧
      lookBack true b.recent = b.standing.start? := by
  unfold standing
  induction b.recent with
  | nil => exact ⟨rfl, rfl⟩
  | cons segment recent ih =>
      cases segment with
      | moveTo p => exact ⟨rfl, rfl⟩
      | lineTo p => exact ⟨rfl, ih.2⟩
      | curveTo p₁ p₂ p₃ => exact ⟨rfl, ih.2⟩
      | close => exact ⟨ih.2, ih.2⟩

/- A builder that takes steps goes forward from where it stood. -/
theorem standing_takeAll
    (b : PathBuilder α)
    (steps : List (PathStep α)) :
    (b.takeAll steps).standing = steps.foldl Standing.take b.standing := by
  induction steps generalizing b with
  | nil => rfl
  | cons step steps ih =>
      rw [takeAll, List.foldl_cons, ← takeAll, ih, List.foldl_cons]
      cases step <;> rfl

/- The current point of a builder is the pen after its steps. -/
theorem currentPoint?_takeAll
    (steps : List (PathStep α)) :
    (empty.takeAll steps).currentPoint? = (Standing.after steps).pen? := by
  unfold currentPoint?
  rw [(lookBack_standing _).1, standing_takeAll]
  rfl

end PathBuilder

------------------------------------------------------------
-- The machine
------------------------------------------------------------

namespace PathData

variable [Scalar α]

/- The pen of an evaluation is where a path stands. -/
structure Pen.At
    (pen : Pen α)
    (s : Standing α) : Prop where
  current : pen.current = s.pen?.getD .origin
  start : pen.start = s.start?.getD .origin

/- Performing a group of operands keeps them together. -/
theorem Pen.At.perform
    {pen : Pen α}
    {s : Standing α}
    (hAt : pen.At s)
    (relative : Bool)
    (group : Group α) :
    (pen.perform relative group).1.At
      ((pen.perform relative group).2.foldl Standing.take s) := by
  cases group with
  | move p => exact ⟨rfl, rfl⟩
  | line p => exact ⟨rfl, hAt.start⟩
  | horizontal x => exact ⟨rfl, hAt.start⟩
  | vertical y => exact ⟨rfl, hAt.start⟩
  | cubic p₁ p₂ p₃ => exact ⟨rfl, hAt.start⟩
  | quadratic q p => exact ⟨rfl, hAt.start⟩
  | smooth p₂ p₃ => exact ⟨rfl, hAt.start⟩
  | arc target => exact ⟨hAt.current, hAt.start⟩
  | close => exact ⟨hAt.start, hAt.start⟩
  | fill rule => exact ⟨hAt.current, hAt.start⟩

namespace Machine

/- The machine has the current point of what it has drawn. -/
def Stands
    (m : Machine α) : Prop :=
  m.pen.At (.after m.recent.reverse)

/- Performing a complete group keeps this. -/
theorem Stands.complete
    {m : Machine α}
    (hStands : m.Stands)
    (command : Command)
    (numbers : List α) :
    (m.complete command numbers).Stands := by
  unfold Machine.complete
  split
  · exact hStands
  · rename_i group _
    unfold Stands
    dsimp only
    rw [List.reverse_append, List.reverse_reverse, Standing.after_append]
    exact hStands.perform command.relative group

/- So does going on within a group. -/
theorem Stands.fill
    {m : Machine α}
    (hStands : m.Stands)
    (command : Command)
    (slots : List Slot)
    (numbers : List α) :
    (m.fill command slots numbers).Stands := by
  cases slots with
  | nil => exact hStands.complete command numbers.reverse
  | cons slot slots => exact hStands

/- So does a token. -/
theorem Stands.after
    {m next : Machine α}
    {t : Token α}
    (hStands : m.Stands)
    (hAfter : m.after? t = some next) :
    next.Stands := by
  unfold after? at hAfter
  split at hAfter
  · cases hAfter
  · unfold take at hAfter
    split at hAfter
    · split at hAfter
      · cases hAfter
      · cases hAfter
        exact hStands.fill _ _ _
    · cases hAfter
      exact hStands.fill _ _ _
    · cases hAfter
      exact hStands.fill _ _ _
    · cases hAfter
      exact hStands.fill _ _ _
    · cases hAfter
      exact hStands

/- The machine has it after any tokens. -/
theorem stands_of_consumed
    {m m' : Machine α}
    {ts : List (Token α)}
    (hStands : m.Stands)
    (hConsumed : ts.foldlM after? m = some m') :
    m'.Stands := by
  induction ts generalizing m with
  | nil =>
      cases hConsumed
      exact hStands
  | cons t ts ih =>
      rw [List.foldlM_cons] at hConsumed
      rcases Option.bind_eq_some_iff.mp hConsumed with
        ⟨next, hAfter, hRest⟩
      exact ih (hStands.after hAfter) hRest

/- A command letter comes only between commands. -/
theorem between_of_after?
    {m next : Machine α}
    {letter : Char}
    (hAfter : m.after? (.command letter) = some next) :
    ∃ again?, m.mode = .between again? := by
  rcases m with ⟨pen, mode, recent⟩
  cases mode with
  | between again? => exact ⟨again?, rfl⟩
  | within command slots numbers =>
      cases slots with
      | nil => cases hAfter
      | cons slot slots => cases slot <;> cases hAfter

/- Accepted data is consumed to its end. -/
theorem consumed_of_accepted
    {data : String}
    (hAccepted : (PathData.trace (α := α) data).fault? = none) :
    ∃ (m : Machine α) (offset : Nat),
      ((scan 0 data.toList).tokens.map Placed.token).foldlM after?
          (Machine.initial (α := α)) =
        some m ∧
      (scan (α := α) 0 data.toList).ending = .complete offset ∧
      ∃ again?, m.mode = .between again? := by
  have hCases := trace_cases (α := α) data
  rw [hAccepted] at hCases
  obtain ⟨clauses, tokens, hLexes, hSentence⟩ := hCases
  obtain ⟨hTokens, offset, hEnding⟩ := scan_of_lexes hLexes 0
  obtain ⟨m, hConsumed, hMode, -⟩ := hSentence.consumed
  exact ⟨m, offset, by rwa [hTokens], hEnding, hMode⟩

end Machine

/-
  The tokens that are left begin with a command, or none is left, so
  that all commands so far are complete.
-/
def BeginsCommand
    (left : List (Placed α)) : Prop :=
  ∀ p ∈ left.head?, ∃ letter, p.token = .command letter

/-
  The current point of a builder, found by looking back, is the pen
  that goes forward with its steps. Wherever accepted data is cut
  into tokens that come first and tokens that are left, the machine
  takes the first ones and goes on with the others. It is between
  commands if a command is left first, and its current point is that
  of a builder that has taken its steps so far, or the origin if the
  builder has none.
-/
theorem trace_currentPoint :
    (∀ steps : List (PathStep α),
      (PathBuilder.empty.takeAll steps).currentPoint? =
        (Standing.after steps).pen?) ∧
    ∀ data : String,
      (trace (α := α) data).fault? = none →
        ∀ first left : List (Placed α),
          (scan 0 data.toList).tokens = first ++ left →
            ∃ m : Machine α,
              (first.map Placed.token).foldlM Machine.after? .initial =
                some m ∧
              trace data = m.run (scan (α := α) 0 data.toList).ending left ∧
              m.recent.reverse <+: (trace (α := α) data).steps ∧
              (BeginsCommand left → ∃ again?, m.mode = .between again?) ∧
              m.pen.current =
                (PathBuilder.empty.takeAll
                  m.recent.reverse).currentPoint?.getD .origin := by
  refine ⟨PathBuilder.currentPoint?_takeAll, ?_⟩
  intro data hAccepted first left hTokens
  obtain ⟨final, offset, hConsumed, hEnding, hMode⟩ :=
    Machine.consumed_of_accepted hAccepted
  have hTrace :
      trace data = final.finish (.complete offset) := by
    unfold trace
    dsimp only
    rw [hEnding]
    exact Machine.run_of_consumed offset hConsumed
  rw [hTokens, List.map_append, List.foldlM_append] at hConsumed
  obtain ⟨m, hFirst, hLeft⟩ := Option.bind_eq_some_iff.mp hConsumed
  refine ⟨m, hFirst, ?_, ?_, ?_, ?_⟩
  · rw [hTrace, hEnding, Machine.run_of_consumed offset hLeft]
  · obtain ⟨more, hMore, -⟩ := Machine.recent_of_consumed hLeft
    rw [hTrace, (final.finish_halts (.complete offset)).1, hMore,
      List.reverse_append]
    exact List.prefix_append _ _
  · intro hBegins
    cases left with
    | nil =>
        cases hLeft
        exact hMode
    | cons p left =>
        obtain ⟨letter, hLetter⟩ := hBegins p rfl
        rw [List.map_cons, List.foldlM_cons, hLetter] at hLeft
        obtain ⟨next, hAfter, -⟩ := Option.bind_eq_some_iff.mp hLeft
        exact Machine.between_of_after? hAfter
  · rw [PathBuilder.currentPoint?_takeAll]
    exact
      (Machine.stands_of_consumed (m := .initial) ⟨rfl, rfl⟩
        hFirst).current

namespace NoMove

/- Data that closes a path which never moved, and goes on. -/
def data : String :=
  "l 5,5 z l 1,1"

/- The tokens up to the close. -/
def first : List (Placed ℚ) :=
  (scan 0 data.toList).tokens.take 5

/- The tokens of the line behind it. -/
def left : List (Placed ℚ) :=
  (scan 0 data.toList).tokens.drop 5

/- The machine between the close and the line. -/
def machine : Machine ℚ :=
  ⟨⟨⟨0, 0⟩, ⟨0, 0⟩, ⟨0, 0⟩⟩, .between none,
    [.draw .close, .draw (.lineTo ⟨5, 5⟩)]⟩

end NoMove

/-
  After the close the machine is at the origin and the builder has
  no current point.
-/
theorem NoMove.closed_at_origin :
    (trace (α := ℚ) data).fault? = none ∧
      (scan 0 data.toList).tokens = first ++ left ∧
      BeginsCommand left ∧
      (first.map Placed.token).foldlM Machine.after? .initial =
        some machine ∧
      (PathBuilder.empty.takeAll
        machine.recent.reverse).currentPoint? = none ∧
      machine.pen.current = .origin := by
  have hAccepted : (trace (α := ℚ) data).fault? = none := by
    decide +kernel
  have hTokens : (scan 0 data.toList).tokens = first ++ left :=
    (List.take_append_drop 5 _).symm
  have hHead : left.head? = some ⟨.command 'l', 8⟩ := by
    decide +kernel
  have hBegins : BeginsCommand left := by
    intro p hFirst
    rw [hHead] at hFirst
    cases hFirst
    exact ⟨'l', rfl⟩
  have hReached :
      (first.map Placed.token).foldlM Machine.after? .initial =
        some machine := by
    decide +kernel
  have hNone :
      (PathBuilder.empty.takeAll
        machine.recent.reverse).currentPoint? = none := rfl
  obtain ⟨m, hConsumed, -, -, -, hCurrent⟩ :=
    trace_currentPoint.2 data hAccepted first left hTokens
  cases hReached.symm.trans hConsumed
  refine ⟨hAccepted, hTokens, hBegins, hReached, hNone, ?_⟩
  rw [hCurrent, hNone]
  rfl

end PathData

end FixedPage
