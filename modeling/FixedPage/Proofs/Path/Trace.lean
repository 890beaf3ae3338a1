import FixedPage.Proofs.Path.Evaluation
import FixedPage.Proofs.Path.Lexical
import FixedPage.Proofs.Scalar.Exact
import Mathlib.Data.List.Induction

/-
  This file shows that path data is evaluated as its grammar
  says: a sentence draws what its clauses draw, and data that is
  not a sentence draws what the clauses before its fault draw,
  but for the last of them if a malformed number comes next.

  Main declarations:
    * `Machine.Halts`
    * `Machine.run_halts`
    * `trace_reference`
-/

namespace FixedPage.PathData

variable {α : Type} [Scalar α]

------------------------------------------------------------
-- Steps of the machine
------------------------------------------------------------

namespace Machine

/-
  A token comes next, or it is at fault; where it stands makes
  no difference.
-/
theorem meets
    (m : Machine α)
    (p : Placed α) :
    (∃ next,
      m.refuses? p = none ∧ m.take p = .ok next ∧
        m.after? p.token = some next) ∨
    (∃ fault : Fault,
      fault.offset = p.offset ∧ m.after? p.token = none ∧
        (m.refuses? p = some fault ∨
          m.refuses? p = none ∧ m.take p = .error fault)) := by
  rcases m with ⟨pen, mode, recent⟩
  rcases p with ⟨t, offset⟩
  cases mode with
  | between again? =>
      cases t with
      | command c =>
          cases hLetter : Command.ofLetter? c <;>
            simp [refuses?, take, after?, hLetter, Except.toOption]
      | _ =>
          cases again? <;>
            simp [refuses?, refuse, take, after?, Except.toOption]
  | within command slots numbers =>
      cases slots with
      | nil => simp [refuses?, refuse, after?]
      | cons slot slots =>
          cases slot <;> cases t <;>
            simp [refuses?, refuse, take, after?, Slot.accepts,
              Except.toOption]

/- A token that is not refused is valid. -/
theorem valid_of_refuses?
    {m : Machine α}
    {p : Placed α}
    (hNone : m.refuses? p = none)
    (c : Char) :
    p.token ≠ .stray c := by
  rcases m with ⟨pen, mode, recent⟩
  rcases p with ⟨t, offset⟩
  rintro rfl
  cases mode with
  | between again? => cases again? <;> cases hNone
  | within command slots numbers =>
      cases slots with
      | nil => cases hNone
      | cons slot slots => cases slot <;> cases hNone

/- A token adds at most one step. -/
theorem recent_of_after?
    {m m' : Machine α}
    {t : Token α}
    (hAfter : m.after? t = some m') :
    ∃ more, m'.recent = more ++ m.recent ∧ more.length ≤ 1 := by
  have hFill :
      ∀ command slots numbers,
        ∃ more,
          (m.fill command slots numbers).recent = more ++ m.recent ∧
            more.length ≤ 1 := by
    intro command slots numbers
    cases slots with
    | cons slot slots => exact ⟨[], rfl, Nat.zero_le 1⟩
    | nil =>
        unfold fill complete
        dsimp only
        split
        · exact ⟨[], rfl, Nat.zero_le 1⟩
        · rename_i g _
          refine ⟨_, rfl, ?_⟩
          cases g <;> simp [Pen.perform]
  unfold after? at hAfter
  split at hAfter
  · cases hAfter
  · unfold take at hAfter
    split at hAfter
    · split at hAfter
      · cases hAfter
      · cases hAfter
        exact hFill _ _ _
    · cases hAfter
      exact hFill _ _ _
    · cases hAfter
      exact hFill _ _ _
    · cases hAfter
      exact hFill _ _ _
    · cases hAfter
      exact ⟨[], rfl, Nat.zero_le 1⟩

/- Tokens add at most one step each. -/
theorem recent_of_consumed
    {m m' : Machine α}
    {ts : List (Token α)}
    (hConsumed : ts.foldlM after? m = some m') :
    ∃ more,
      m'.recent = more ++ m.recent ∧ more.length ≤ ts.length := by
  induction ts generalizing m with
  | nil =>
      cases hConsumed
      exact ⟨[], rfl, Nat.zero_le 0⟩
  | cons t ts ih =>
      rw [List.foldlM_cons] at hConsumed
      rcases Option.bind_eq_some_iff.mp hConsumed with
        ⟨next, hAfter, hRest⟩
      rcases recent_of_after? hAfter with ⟨first, hFirst, hOne⟩
      rcases ih hRest with ⟨more, hMore, hLength⟩
      refine ⟨more ++ first, ?_, ?_⟩
      · rw [hMore, hFirst, List.append_assoc]
      · rw [List.length_append, List.length_cons]
        omega

------------------------------------------------------------
-- Runs of the machine
------------------------------------------------------------

/-
  Why a run stops at some tokens. The last case is a malformed
  number that comes after a token.
-/
inductive Halts :
    Machine α → Ending → List (Placed α) → Option Fault → Prop
| accepted
    {m : Machine α}
    {offset : Nat}
    (hMode :
      ∀ command slot slots numbers,
        m.mode ≠ .within command (slot :: slots) numbers) :
    Halts m (.complete offset) [] none
| ended
    {m : Machine α}
    {ending : Ending}
    {fault : Fault}
    (hOffset : fault.offset = ending.offset) :
    Halts m ending [] (some fault)
| refused
    {m : Machine α}
    {ending : Ending}
    {fault : Fault}
    {p : Placed α}
    {rest : List (Placed α)}
    (hOffset : fault.offset = p.offset) :
    Halts m ending (p :: rest) (some fault)
| ahead
    {m : Machine α}
    {ending : Ending}
    {fault : Fault}
    {p : Placed α}
    (hValid : ∀ c, p.token ≠ .stray c)
    (hOffset : fault.offset = ending.offset) :
    Halts m ending [p] (some fault)

omit [Scalar α] in
/- The end of the data stops a run. -/
theorem finish_halts
    (m : Machine α)
    (ending : Ending) :
    (m.finish ending).steps = m.recent.reverse ∧
      m.Halts ending [] (m.finish ending).fault? := by
  cases ending with
  | malformed offset text => exact ⟨rfl, .ended rfl⟩
  | complete offset =>
      unfold finish
      dsimp only
      split
      · exact ⟨rfl, .ended rfl⟩
      · rename_i hMode
        refine ⟨rfl, .accepted ?_⟩
        rintro command slot slots numbers hWithin
        exact hMode command slot slots numbers hWithin

omit [Scalar α] in
/- A malformed number after a token is at fault. -/
theorem offset_of_lookahead?
    {rest : List (Placed α)}
    {ending : Ending}
    {fault : Fault}
    (hAhead : lookahead? rest ending = some fault) :
    rest = [] ∧ fault.offset = ending.offset := by
  unfold lookahead? at hAhead
  split at hAhead <;> cases hAhead
  exact ⟨rfl, rfl⟩

/- A run takes some tokens and stops at the rest. -/
theorem run_halts
    (m : Machine α)
    (ending : Ending)
    (ps : List (Placed α)) :
    ∃ front back m',
      ps = front ++ back ∧
        (front.map Placed.token).foldlM after? m = some m' ∧
        (∀ p ∈ front, ∀ c, p.token ≠ .stray c) ∧
        (m.run ending ps).steps = m'.recent.reverse ∧
        m'.Halts ending back (m.run ending ps).fault? := by
  induction ps generalizing m with
  | nil =>
      rcases m.finish_halts ending with ⟨hSteps, hHalts⟩
      exact ⟨[], [], m, rfl, rfl, nofun, hSteps, hHalts⟩
  | cons p rest ih =>
      rw [run]
      rcases m.meets p with
        ⟨next, hNone, hTake, hAfter⟩ | ⟨fault, hOffset, _, hFault⟩
      · rw [hNone]
        dsimp only
        cases hAhead : lookahead? rest ending with
        | some fault =>
            rcases offset_of_lookahead? hAhead with ⟨rfl, hOffset⟩
            exact
              ⟨[], [p], m, rfl, rfl, nofun, rfl,
                .ahead (valid_of_refuses? hNone) hOffset⟩
        | none =>
            rw [hTake]
            rcases ih next with
              ⟨front, back, m', rfl, hConsumed, hValid, hRun⟩
            refine ⟨p :: front, back, m', rfl, ?_, ?_, hRun⟩
            · rw [List.map_cons, List.foldlM_cons, hAfter]
              exact hConsumed
            · intro q hMem
              rcases List.mem_cons.mp hMem with rfl | hMem
              · exact valid_of_refuses? hNone
              · exact hValid q hMem
      · rcases hFault with hRefuses | ⟨hNone, hTake⟩
        · rw [hRefuses]
          exact
            ⟨[], p :: rest, m, rfl, rfl, nofun, rfl, .refused hOffset⟩
        · rw [hNone]
          dsimp only
          cases hAhead : lookahead? rest ending with
          | some fault' =>
              rcases offset_of_lookahead? hAhead with ⟨rfl, hAt⟩
              exact
                ⟨[], [p], m, rfl, rfl, nofun, rfl,
                  .ahead (valid_of_refuses? hNone) hAt⟩
          | none =>
              rw [hTake]
              exact
                ⟨[], p :: rest, m, rfl, rfl, nofun, rfl,
                  .refused hOffset⟩

/- Data that the machine takes as a whole is evaluated. -/
theorem run_of_consumed
    {m m' : Machine α}
    {ps : List (Placed α)}
    (offset : Nat)
    (hConsumed :
      (ps.map Placed.token).foldlM after? m = some m') :
    m.run (.complete offset) ps = m'.finish (.complete offset) := by
  induction ps generalizing m with
  | nil =>
      cases hConsumed
      rfl
  | cons p rest ih =>
      rw [List.map_cons, List.foldlM_cons] at hConsumed
      rcases Option.bind_eq_some_iff.mp hConsumed with
        ⟨next, hAfter, hRest⟩
      rcases m.meets p with
        ⟨next', hNone, hTake, hAfter'⟩ | ⟨_, _, hNever, _⟩
      · cases hAfter.symm.trans hAfter'
        have hAhead : lookahead? rest (.complete offset) = none := by
          cases rest <;> rfl
        rw [run, hNone, hAhead, hTake]
        exact ih hRest
      · rw [hNever] at hAfter
        cases hAfter

end Machine

------------------------------------------------------------
-- Longest sentences
------------------------------------------------------------

/- A sentence is consumed and drawn. -/
theorem Sentence.consumed
    {ts : List (Token α)}
    {cs : List (Clause α)}
    (hSentence : Sentence ts cs) :
    ∃ m,
      ts.foldlM Machine.after? (Machine.initial (α := α)) = some m ∧
        (∃ again?, m.mode = .between again?) ∧
        m.recent = (calls cs).reverse := by
  rcases sentence_iff_row.mp hSentence with ⟨again?, hRow⟩
  exact ⟨_, hRow.consumed, ⟨again?, rfl⟩, rfl⟩

/- Tokens are a sentence if the machine waits for no operand. -/
theorem Tracks.sentence
    {m : Machine α}
    {ts : List (Token α)}
    (hTracks : Tracks m ts)
    (hMode :
      ∀ command slot slots numbers,
        m.mode ≠ .within command (slot :: slots) numbers) :
    ∃ clauses, Sentence ts clauses := by
  cases hTracks with
  | between hRow => exact ⟨_, hRow.continues.sentence⟩
  | within => exact absurd rfl (hMode _ _ _ _)

/-
  Some sentence among the first of some tokens; no longer one is
  among them.
-/
structure Longest
    (tokens done : List (Token α))
    (clauses : List (Clause α)) : Prop where
  first : done <+: tokens
  sentence : Sentence done clauses
  longest :
    ∀ other others,
      other <+: tokens → Sentence other others →
        other.length ≤ done.length

/- There is a longest sentence among the first of some tokens. -/
theorem exists_longest
    (tokens : List (Token α)) :
    ∃ done clauses, Longest tokens done clauses := by
  induction tokens using List.reverseRec with
  | nil =>
      refine ⟨[], [], List.prefix_rfl, .nil, ?_⟩
      intro other _ hFirst _
      rw [List.prefix_nil.mp hFirst]
  | append_singleton tokens t ih =>
      by_cases hAll : ∃ clauses, Sentence (tokens ++ [t]) clauses
      · rcases hAll with ⟨clauses, hSentence⟩
        exact
          ⟨_, clauses, List.prefix_rfl, hSentence,
            fun _ _ hFirst _ => hFirst.length_le⟩
      · rcases ih with ⟨done, clauses, hDone⟩
        refine
          ⟨done, clauses,
            hDone.first.trans (List.prefix_append _ _),
            hDone.sentence, ?_⟩
        intro other others hFirst hOther
        rcases List.prefix_concat_iff.mp hFirst with rfl | hFirst
        · exact absurd ⟨others, hOther⟩ hAll
        · exact hDone.longest other others hFirst hOther

/-
  A machine that has taken all but at most one of some tokens
  has drawn what their longest sentence draws, but for at most
  one step.
-/
theorem Longest.drawn
    {front more done : List (Token α)}
    {clauses : List (Clause α)}
    {m : Machine α}
    (hLongest : Longest (front ++ more) done clauses)
    (hMore : more.length ≤ 1)
    (hConsumed :
      front.foldlM Machine.after? (Machine.initial (α := α)) =
        some m) :
    m.recent.reverse <+: calls clauses ∧
      (calls clauses).length ≤ m.recent.length + 1 := by
  rcases hLongest.sentence.consumed with ⟨m', hDone, _, hRecent⟩
  constructor
  · have hTracks :=
      tracks_of_consumed (.between .nil) hConsumed
    rw [List.nil_append] at hTracks
    have hSentence :
        ∃ ts cs,
          ts <+: front ∧ Sentence ts cs ∧
            m.recent = (calls cs).reverse := by
      cases hTracks with
      | between hRow =>
          exact
            ⟨front, _, List.prefix_rfl, hRow.continues.sentence,
              by simp [Machine.ofClauses, calls]⟩
      | within hRow =>
          exact
            ⟨_, _, List.prefix_append _ _, hRow.continues.sentence,
              by simp [Machine.ofClauses, calls]⟩
    rcases hSentence with ⟨ts, cs, hFirst, hSentence, hSteps⟩
    have hWithin : ts <+: done :=
      List.prefix_of_prefix_length_le
        (hFirst.trans (List.prefix_append _ _)) hLongest.first
        (hLongest.longest ts cs
          (hFirst.trans (List.prefix_append _ _)) hSentence)
    rcases hWithin with ⟨rest, rfl⟩
    rcases hSentence.consumed with ⟨m₀, hTaken, _, hBefore⟩
    rw [List.foldlM_append, hTaken] at hDone
    rcases Machine.recent_of_consumed hDone with ⟨added, hAdded, _⟩
    rw [hRecent, hBefore] at hAdded
    have hCalls := congrArg List.reverse hAdded
    rw [List.reverse_reverse, List.reverse_append,
      List.reverse_reverse] at hCalls
    rw [hSteps, List.reverse_reverse, hCalls]
    exact List.prefix_append _ _
  · have hLength : (calls clauses).length = m'.recent.length := by
      rw [hRecent, List.length_reverse]
    rcases hLongest.first with ⟨left, hSplit⟩
    rw [hLength]
    rcases List.append_eq_append_iff.mp hSplit with
      ⟨rest, rfl, _⟩ | ⟨rest, rfl, rfl⟩
    · rw [List.foldlM_append, hDone] at hConsumed
      rcases Machine.recent_of_consumed hConsumed with
        ⟨added, hAdded, _⟩
      rw [hAdded, List.length_append]
      omega
    · rw [List.foldlM_append, hConsumed] at hDone
      rcases Machine.recent_of_consumed hDone with
        ⟨added, hAdded, hCount⟩
      rw [List.length_append] at hMore
      rw [hAdded, List.length_append]
      omega

------------------------------------------------------------
-- Curves
------------------------------------------------------------

/- One coordinate of a point of a quadratic curve. -/
def quadraticAt
    (a b c t : ℚ) : ℚ :=
  (1 - t) ^ 2 * a + 2 * (1 - t) * t * b + t ^ 2 * c

/- One coordinate of a point of a cubic curve. -/
def cubicAt
    (a b c d t : ℚ) : ℚ :=
  (1 - t) ^ 3 * a + 3 * (1 - t) ^ 2 * t * b
    + 3 * (1 - t) * t ^ 2 * c + t ^ 3 * d

section

variable [ExactScalar α]

open ExactScalar

/-
  The cubic curve between two points has the shape of the
  quadratic one.
-/
def SameShape
    (p q r : Point α) : Prop :=
  ∀ t : ℚ,
    cubicAt (value p.x) (value (Pen.twoThirds q p).x)
        (value (Pen.twoThirds q r).x) (value r.x) t =
      quadraticAt (value p.x) (value q.x) (value r.x) t ∧
    cubicAt (value p.y) (value (Pen.twoThirds q p).y)
        (value (Pen.twoThirds q r).y) (value r.y) t =
      quadraticAt (value p.y) (value q.y) (value r.y) t

/- Two thirds of the way make a quadratic curve cubic. -/
theorem sameShape
    (p q r : Point α) :
    SameShape p q r := by
  intro t
  constructor <;>
    · simp only [Pen.twoThirds, cubicAt, quadraticAt, value_add,
        value_mul, value_div, value_natCast, value_one]
      push_cast
      ring

/- No way leads to where it starts. -/
theorem add_origin
    (p : Point α) :
    p.add .origin = p := by
  have hAdd : ∀ x : α, x + 0 = x := by
    intro x
    apply value_injective
    rw [value_add, value_zero, add_zero]
  rcases p with ⟨x, y⟩
  simp only [Point.add, Point.origin, hAdd]

end

------------------------------------------------------------
-- Evaluation
------------------------------------------------------------

/- Data is cut into the tokens of a sentence. -/
def Spells
    (data : String)
    (clauses : List (Clause α)) : Prop :=
  ∃ tokens, Lexes data.toList tokens [] ∧ Sentence tokens clauses

/-
  Some steps are what the longest sentence among the tokens
  before an offset draws, but for at most its last step.
-/
def DrawnBefore
    (data : String)
    (offset : Nat)
    (steps : List (PathStep α)) : Prop :=
  ∃ before after tokens done clauses,
    data.toList = before ++ after ∧
      byteLength before = offset ∧
      Lexes data.toList tokens after ∧
      Longest tokens done clauses ∧
      steps <+: calls clauses ∧
      (calls clauses).length ≤ steps.length + 1

/- Data that is a sentence is evaluated to what it draws. -/
theorem trace_of_spells
    {data : String}
    {clauses : List (Clause α)}
    (hSpells : Spells data clauses) :
    trace data = ⟨calls clauses, none⟩ := by
  rcases hSpells with ⟨tokens, hLexes, hSentence⟩
  rcases scan_of_lexes hLexes 0 with ⟨hTokens, offset, hEnd⟩
  rcases hSentence.consumed with
    ⟨m, hConsumed, ⟨again?, hMode⟩, hRecent⟩
  rw [← hTokens] at hConsumed
  unfold trace
  dsimp only
  rw [hEnd, Machine.run_of_consumed offset hConsumed]
  simp [Machine.finish, Machine.stop, hMode, hRecent]

/- What an evaluation tells about the data. -/
theorem trace_cases
    (data : String) :
    match (trace (α := α) data).fault? with
    | none => ∃ clauses : List (Clause α), Spells data clauses
    | some fault =>
        DrawnBefore data fault.offset (trace (α := α) data).steps := by
  have hShows := scan_shows (α := α) 0 data.toList
  unfold trace
  dsimp only
  generalize scan (α := α) 0 data.toList = lexemes at hShows ⊢
  rcases lexemes with ⟨ps, ending⟩
  dsimp only
  rcases Machine.initial.run_halts ending ps with
    ⟨front, back, m, rfl, hConsumed, hValid, hSteps, hHalts⟩
  have hTracks := tracks_of_consumed (.between .nil) hConsumed
  rw [List.nil_append] at hTracks
  have hStop :
      ∀ (fault : Fault) (more rest : List (Placed α)),
        back = more ++ rest → more.length ≤ 1 →
          (∀ p ∈ front ++ more, ∀ c, p.token ≠ .stray c) →
            fault.offset = nextOffset ending rest →
              DrawnBefore data fault.offset m.recent.reverse := by
    intro fault more rest hBack hMore hAll hOffset
    have hSplit : front ++ back = (front ++ more) ++ rest := by
      rw [hBack, List.append_assoc]
    rcases hShows (front ++ more) rest hSplit hAll with
      ⟨before, after, hData, hLexes, hNext, _⟩
    rcases exists_longest ((front ++ more).map Placed.token) with
      ⟨done, clauses, hLongest⟩
    have hDrawn := hLongest
    rw [List.map_append] at hDrawn
    have hDrawn := hDrawn.drawn (by rwa [List.length_map]) hConsumed
    rw [Nat.zero_add] at hNext
    refine
      ⟨before, after, _, done, clauses, hData, ?_, hLexes, hLongest,
        hDrawn.1, ?_⟩
    · rw [hOffset, hNext]
    · rw [List.length_reverse]
      exact hDrawn.2
  rw [hSteps]
  generalize
    (Machine.initial.run ending (front ++ back)).fault? = fault?
    at hHalts
  cases hHalts with
  | @accepted offset hMode =>
      rcases hShows front [] rfl hValid with
        ⟨before, after, hData, hLexes, _, hEnd⟩
      rw [hEnd rfl ⟨offset, rfl⟩] at hLexes
      rcases hTracks.sentence hMode with ⟨clauses, hSentence⟩
      exact ⟨clauses, _, hLexes, hSentence⟩
  | ended hOffset =>
      exact hStop _ [] [] rfl (Nat.zero_le 1) (by simpa using hValid)
        hOffset
  | @refused _ fault p rest hOffset =>
      exact hStop _ [] (p :: rest) rfl (Nat.zero_le 1)
        (by simpa using hValid) hOffset
  | @ahead _ fault p hIs hOffset =>
      refine hStop _ [p] [] rfl (Nat.le_refl 1) ?_ hOffset
      intro q hMem
      rcases List.mem_append.mp hMem with hMem | hMem
      · exact hValid q hMem
      · rw [List.mem_singleton.mp hMem]
        exact hIs

/-
  Path data is accepted if and only if it is a sentence. It then
  draws what its clauses draw; otherwise it draws what the
  clauses before the fault draw, but for at most the last one.
  Quadratic curves keep their shape if nothing is rounded, and
  a smooth curve after no cubic one starts at the current point.
-/
theorem trace_reference
    (data : String) :
    ((trace (α := α) data).fault? = none ↔
      ∃ clauses : List (Clause α), Spells data clauses) ∧
    (∀ clauses : List (Clause α),
      Spells data clauses → (trace data).steps = calls clauses) ∧
    (∀ fault,
      (trace (α := α) data).fault? = some fault →
        DrawnBefore data fault.offset (trace (α := α) data).steps) ∧
    (∀ _ : ExactScalar α,
      (∀ p q r : Point α, SameShape p q r) ∧
        ∀ p : Point α, p.add .origin = p) := by
  have hCases := trace_cases (α := α) data
  refine ⟨⟨?_, ?_⟩, ?_, ?_, ?_⟩
  · intro hNone
    rw [hNone] at hCases
    exact hCases
  · rintro ⟨clauses, hSpells⟩
    rw [trace_of_spells hSpells]
  · intro clauses hSpells
    rw [trace_of_spells hSpells]
  · intro fault hFault
    rw [hFault] at hCases
    exact hCases
  · exact fun _ => ⟨sameShape, add_origin⟩

end FixedPage.PathData
