import FixedPage.Proofs.Path.Trace

/-
  This file says at which offset path data is rejected. Tokens may
  come first if some accepted data begins with them, and the first
  token that cannot go on like that, the end of the data included,
  is the one at fault. Its offset is the reported one, unless it is
  a letter that no command has and the token after it is a malformed
  number: that one has been read by then and is reported instead.

  Main declarations:
    * `Accepted`
    * `Viable`
    * `Offends`
    * `FirstOffence`
    * `Hidden`
    * `FirstOffence.fault`
    * `trace_offence`
-/

namespace FixedPage.PathData

variable {α : Type} [Scalar α]

------------------------------------------------------------
-- Reading
------------------------------------------------------------

/- No token can be read from the front of a text. -/
def Unreadable
    (α : Type)
    [Scalar α]
    (cs : List Char) : Prop :=
  ∀ (t : Token α) (rest : List Char), ¬ Lexes cs [t] rest

/- The text does not go on with a blank. -/
def EndsBlanks
    (cs : List Char) : Prop :=
  ∀ c rest, cs = c :: rest → isSpace c = false

/- Blanks are skipped up to the next token or the end. -/
theorem exists_endsBlanks
    (cs : List Char) :
    ∃ rest, Lexes (α := α) cs [] rest ∧ EndsBlanks rest := by
  induction cs with
  | nil => exact ⟨[], .done [], nofun⟩
  | cons c cs ih =>
      by_cases hBlank : c = ' ' ∨ c = '\t'
      · rcases ih with ⟨rest, hLexes, hEnds⟩
        exact ⟨rest, .blank hBlank hLexes, hEnds⟩
      · refine ⟨c :: cs, .done _, ?_⟩
        rintro d rest hSplit
        rw [← (List.cons.inj hSplit).1]
        rw [not_or] at hBlank
        simp [isSpace, hBlank]

/-
  What is scanned from a text that no blank comes first in: the
  end, a token that can be read, a malformed number, or a character
  that is no token.
-/
inductive Next
    (offset : Nat) :
    List Char → Lexemes α → Prop
| ended :
    Next offset [] ⟨[], .complete offset⟩
| token
    {cs rest : List Char}
    {t : Token α}
    {following : List (Placed α)}
    {ending : Ending}
    (hLexes : Lexes cs [t] rest) :
    Next offset cs ⟨⟨t, offset⟩ :: following, ending⟩
| malformed
    {c : Char}
    {tail : List Char}
    {text : String}
    (hStarts : startsNumber c = true)
    (hUnreadable : Unreadable α (c :: tail)) :
    Next offset (c :: tail) ⟨[], .malformed offset text⟩
| stray
    {c : Char}
    {tail : List Char}
    {following : List (Placed α)}
    {ending : Ending}
    (hStarts : startsNumber c = false)
    (hUnreadable : Unreadable α (c :: tail)) :
    Next offset (c :: tail) ⟨⟨.stray c, offset⟩ :: following, ending⟩

/- Nothing can be read where no written token is scanned. -/
theorem unreadable_of_scan
    {cs : List Char}
    (offset : Nat)
    (hScan :
      ∀ p ps,
        (scan (α := α) offset cs).tokens = p :: ps →
          ¬ p.token.Written) :
    Unreadable α cs := by
  intro t rest hLexes
  rcases hLexes.scanned offset with ⟨before, ps, -, hTokens, -, hSame⟩
  rcases List.map_eq_singleton_iff.mp hTokens with ⟨p, rfl, rfl⟩
  refine hScan p _ (congrArg Lexemes.tokens hSame) ?_
  exact hLexes.written p.token List.mem_cons_self

theorem scan_next
    {cs : List Char}
    (hEnds : EndsBlanks cs)
    (offset : Nat) :
    Next offset cs (scan (α := α) offset cs) := by
  cases cs with
  | nil =>
      rw [scan]
      exact .ended
  | cons c tail =>
      have hBlank : ¬ isSpace c = true := by
        rw [hEnds c tail rfl]
        exact Bool.false_ne_true
      cases hStarts : startsNumber c with
      | true =>
          cases hRead :
              (Scalar.read? (cutNumber c tail).1 : Option α) with
          | none =>
              have hScan :
                  scan (α := α) offset (c :: tail) =
                    ⟨[], .malformed offset
                      (String.ofList (cutNumber c tail).1)⟩ := by
                rw [scan, if_neg hBlank, if_pos hStarts]
                simp only [hRead]
              rw [hScan]
              refine .malformed hStarts (unreadable_of_scan offset ?_)
              rw [hScan]
              rintro p ps hNil
              cases hNil
          | some value =>
              rw [scan, if_neg hBlank, if_pos hStarts]
              simp only [hRead]
              exact .token (lexes_cutNumber hStarts hRead (.done _))
      | false =>
          have hStarts' : ¬ startsNumber c = true := by
            rw [hStarts]
            exact Bool.false_ne_true
          by_cases hComma : c = ','
          · rw [scan, if_neg hBlank, if_neg hStarts', hComma]
            exact .token (.comma (.done tail))
          · cases hLetter : c.isAlpha with
            | true =>
                rw [scan, if_neg hBlank, if_neg hStarts']
                simp only [beq_iff_eq, hComma, hLetter, if_true, if_false]
                exact .token (.command hLetter (.done tail))
            | false =>
                have hScan :
                    scan (α := α) offset (c :: tail) =
                      ⟨⟨.stray c, offset⟩
                          :: (scan (offset + c.utf8Size) tail).tokens,
                        (scan (α := α) (offset + c.utf8Size)
                          tail).ending⟩ := by
                  rw [scan, if_neg hBlank, if_neg hStarts']
                  simp [hComma, hLetter]
                rw [hScan]
                refine .stray hStarts (unreadable_of_scan offset ?_)
                rw [hScan]
                rintro p ps hCons
                rw [← (List.cons.inj hCons).1]
                exact id

------------------------------------------------------------
-- Accepted tokens
------------------------------------------------------------

/- The tokens are those of some data that is accepted. -/
def Accepted
    (ts : List (Token α)) : Prop :=
  ∃ data : String,
    Lexes data.toList ts [] ∧ (trace (α := α) data).fault? = none

/- Some accepted data begins with the tokens. -/
def Viable
    (ts : List (Token α)) : Prop :=
  ∃ us, Accepted (ts ++ us)

/- Data is read as one row of tokens only. -/
theorem Lexes.unique
    {cs : List Char}
    {ts us : List (Token α)}
    (hLexes : Lexes cs ts [])
    (hOther : Lexes cs us []) :
    ts = us :=
  (scan_of_lexes hLexes 0).1.symm.trans (scan_of_lexes hOther 0).1

/- Accepted tokens are written sentences. -/
theorem accepted_iff
    {ts : List (Token α)} :
    Accepted ts ↔ (∀ t ∈ ts, t.Written) ∧ ∃ cs, Sentence ts cs := by
  constructor
  · rintro ⟨data, hLexes, hAccepted⟩
    have hCases := trace_cases (α := α) data
    rw [hAccepted] at hCases
    rcases hCases with ⟨cs, us, hOther, hSentence⟩
    rw [hLexes.unique hOther]
    exact ⟨hOther.written, cs, hSentence⟩
  · rintro ⟨hWritten, cs, hSentence⟩
    rcases exists_lexes hWritten with ⟨text, hLexes⟩
    have hRead : Lexes (String.ofList text).toList ts [] := by
      rwa [String.toList_ofList]
    have hSpells : Spells (String.ofList text) cs :=
      ⟨ts, hRead, hSentence⟩
    exact ⟨_, hRead, congrArg Trace.fault? (trace_of_spells hSpells)⟩

omit [Scalar α] in
/- Slots are filled one row after the other. -/
theorem Fits.append
    {slots more : List Slot}
    {ts us : List (Token α)}
    {numbers others : List α}
    (hFirst : Fits slots ts numbers)
    (hNext : Fits more us others) :
    Fits (slots ++ more) (ts ++ us) (numbers ++ others) := by
  induction hFirst with
  | nil => exact hNext
  | number value _ ih => exact .number value ih
  | comma _ ih => exact .comma ih

/- Any slots can be filled with written tokens. -/
theorem exists_fits
    (slots : List Slot) :
    ∃ (us : List (Token α)) (numbers : List α),
      (∀ t ∈ us, t.Written) ∧ Fits slots us numbers := by
  induction slots with
  | nil => exact ⟨[], [], nofun, .nil⟩
  | cons slot slots ih =>
      rcases ih with ⟨us, numbers, hWritten, hFits⟩
      cases slot with
      | comma =>
          exact
            ⟨.comma :: us, numbers,
              List.forall_mem_cons.mpr ⟨trivial, hWritten⟩,
              .comma hFits⟩
      | number =>
          have hZero :
              NumberText (α := α) ([] ++ ['0']) _ :=
            .whole .none (List.forall_mem_singleton.mpr rfl)
              (List.cons_ne_nil _ _)
          exact
            ⟨.number _ :: us, _ :: numbers,
              List.forall_mem_cons.mpr ⟨⟨_, hZero⟩, hWritten⟩,
              .number _ hFits⟩

/- A machine that has taken written tokens can be led to an end. -/
theorem Tracks.viable
    {m : Machine α}
    {ts : List (Token α)}
    (hTracks : Tracks m ts)
    (hWritten : ∀ t ∈ ts, t.Written) :
    Viable ts := by
  cases hTracks with
  | between hRow =>
      refine ⟨[], ?_⟩
      rw [List.append_nil]
      exact accepted_iff.mpr ⟨hWritten, _, hRow.continues.sentence⟩
  | @within ts lead us before again? command done slots slot numbers
      hRow hLead hFits hSlots =>
      rcases exists_fits (α := α) (slot :: slots) with
        ⟨more, others, hMore, hRest⟩
      have hAll := hFits.append hRest
      rw [← hSlots] at hAll
      rcases hAll.verbOperands with ⟨g, -, hOperands⟩
      have hSentence :=
        (Row.clause hRow hLead hOperands).continues.sentence
      refine ⟨more, accepted_iff.mpr ⟨?_, ?_⟩⟩
      · exact List.forall_mem_append.mpr ⟨hWritten, hMore⟩
      · rw [List.append_assoc, List.append_assoc]
        exact ⟨_, hSentence⟩

/-
  Tokens may come first if they are written and the machine takes
  them.
-/
theorem viable_iff
    {ts : List (Token α)} :
    Viable ts ↔
      (∀ t ∈ ts, t.Written) ∧
        ∃ m, ts.foldlM Machine.after? (.initial (α := α)) = some m := by
  constructor
  · rintro ⟨us, hAccepted⟩
    rcases accepted_iff.mp hAccepted with ⟨hWritten, cs, hSentence⟩
    rcases hSentence.consumed with ⟨m, hConsumed, -⟩
    rw [List.foldlM_append] at hConsumed
    rcases Option.bind_eq_some_iff.mp hConsumed with ⟨m', hFirst, -⟩
    exact ⟨(List.forall_mem_append.mp hWritten).1, m', hFirst⟩
  · rintro ⟨hWritten, m, hConsumed⟩
    have hTracks := tracks_of_consumed (.between .nil) hConsumed
    exact hTracks.viable hWritten

/- Nothing stands in the way of no tokens. -/
theorem viable_nil :
    Viable (α := α) [] :=
  viable_iff.mpr ⟨nofun, _, rfl⟩

/- Fewer tokens may come first, too. -/
theorem Viable.of_append
    {ts us : List (Token α)}
    (hViable : Viable (ts ++ us)) :
    Viable ts := by
  rcases hViable with ⟨more, hAccepted⟩
  rw [List.append_assoc] at hAccepted
  exact ⟨us ++ more, hAccepted⟩

/-
  The machine has taken accepted tokens if and only if it waits
  for no operand.
-/
theorem accepted_iff_between
    {m : Machine α}
    {ts : List (Token α)}
    (hWritten : ∀ t ∈ ts, t.Written)
    (hConsumed :
      ts.foldlM Machine.after? (.initial (α := α)) = some m) :
    Accepted ts ↔ ∃ again?, m.mode = .between again? := by
  constructor
  · intro hAccepted
    rcases accepted_iff.mp hAccepted with ⟨-, cs, hSentence⟩
    rcases hSentence.consumed with ⟨m', hConsumed', hMode, -⟩
    cases hConsumed.symm.trans hConsumed'
    exact hMode
  · rintro ⟨again?, hMode⟩
    have hTracks := tracks_of_consumed (.between .nil) hConsumed
    rw [List.nil_append] at hTracks
    refine accepted_iff.mpr ⟨hWritten, hTracks.sentence ?_⟩
    intro command slot slots numbers hWithin
    cases hMode.symm.trans hWithin

------------------------------------------------------------
-- Offences
------------------------------------------------------------

/-
  What comes after some tokens is at fault: the data ends too
  early, no token can be read, or the token that can be read cannot
  follow.
-/
inductive Offends
    (ts : List (Token α)) :
    List Char → Prop
| ended
    (hOpen : ¬ Accepted ts) :
    Offends ts []
| malformed
    {c : Char}
    {tail : List Char}
    (hUnreadable : Unreadable α (c :: tail)) :
    Offends ts (c :: tail)
| refused
    {after rest : List Char}
    {t : Token α}
    (hToken : Lexes after [t] rest)
    (hNever : ¬ Viable (ts ++ [t])) :
    Offends ts after

/-
  The first offence in the data comes after some text, from which
  tokens are read that may come first. It is not a blank.
-/
structure FirstOffence
    (data : String)
    (before : List Char)
    (ts : List (Token α))
    (after : List Char) : Prop where
  split : data.toList = before ++ after
  read : Lexes data.toList ts after
  viable : Viable ts
  ends : EndsBlanks after
  offends : Offends ts after

/-
  A letter that no command has comes after complete commands, and a
  malformed number comes next, so many bytes after the letter.
-/
inductive Hidden
    (ts : List (Token α)) :
    List Char → Nat → Prop
| behind
    {letter c : Char}
    {text tail : List Char}
    (hBefore : Accepted ts)
    (hUnknown : Command.ofLetter? letter = none)
    (hLetter :
      Lexes (α := α) (text ++ c :: tail) [.command letter] (c :: tail))
    (hStarts : startsNumber c = true)
    (hUnreadable : Unreadable α (c :: tail)) :
    Hidden ts (text ++ c :: tail) (byteLength text)

/- Data that is not accepted has a first offence. -/
theorem exists_offends
    {ts : List (Token α)}
    (cs : List Char)
    (hViable : Viable ts)
    (hRejected :
      ∀ us, Lexes cs us [] → ¬ Accepted (ts ++ us)) :
    ∃ us rest,
      Lexes cs us rest ∧ Viable (ts ++ us) ∧ EndsBlanks rest ∧
        Offends (ts ++ us) rest := by
  -- A token takes at least one character, so the text gets shorter.
  induction hLength : cs.length using Nat.strong_induction_on
    generalizing ts cs with
  | _ n ih =>
      by_cases hMore :
          ∃ t rest, Lexes cs [t] rest ∧ Viable (ts ++ [t])
      · rcases hMore with ⟨t, rest, hToken, hNext⟩
        rcases hToken.scanned 0 with
          ⟨before, -, hSplit, -, hSome, -⟩
        have hShorter : rest.length < n := by
          rw [← hLength, hSplit, List.length_append]
          exact Nat.lt_add_of_pos_left hSome
        have hRest :
            ∀ us, Lexes rest us [] → ¬ Accepted (ts ++ [t] ++ us) := by
          intro us hLexes
          rw [List.append_assoc]
          exact hRejected _ (hToken.append hLexes)
        rcases ih _ hShorter rest hNext hRest rfl with
          ⟨us, rest', hLexes, hViable', hEnds, hOffends⟩
        rw [List.append_assoc] at hViable' hOffends
        exact
          ⟨[t] ++ us, rest', hToken.append hLexes, hViable', hEnds,
            hOffends⟩
      · rcases exists_endsBlanks (α := α) cs with ⟨rest, hBlanks, hEnds⟩
        refine
          ⟨[], rest, hBlanks, by rwa [List.append_nil], hEnds, ?_⟩
        rw [List.append_nil]
        by_cases hToken : ∃ t rest', Lexes (α := α) rest [t] rest'
        · rcases hToken with ⟨t, rest', hToken⟩
          exact
            .refused hToken fun hNext =>
              hMore ⟨t, rest', hBlanks.append hToken, hNext⟩
        · cases rest with
          | nil =>
              have hEnded := hRejected [] hBlanks
              rw [List.append_nil] at hEnded
              exact .ended hEnded
          | cons c tail =>
              exact
                .malformed fun t rest' hLexes =>
                  hToken ⟨t, rest', hLexes⟩

------------------------------------------------------------
-- Runs of the machine
------------------------------------------------------------

namespace Machine

/- A run that takes some tokens fails as it does after them. -/
theorem fault?_run_append
    {m m' : Machine α}
    {ps : List (Placed α)}
    (ending : Ending)
    (back : List (Placed α))
    (hConsumed : (ps.map Placed.token).foldlM after? m = some m') :
    (m.run ending (ps ++ back)).fault? = (m'.run ending back).fault? := by
  induction ps generalizing m with
  | nil =>
      cases hConsumed
      rfl
  | cons p ps ih =>
      rw [List.map_cons, List.foldlM_cons] at hConsumed
      rcases Option.bind_eq_some_iff.mp hConsumed with
        ⟨next, hAfter, hRest⟩
      rcases m.meets p with
        ⟨next', hNone, hTake, hAfter'⟩ | ⟨_, _, hNever, _⟩
      · cases hAfter.symm.trans hAfter'
        rw [List.cons_append, run, hNone]
        dsimp only
        cases hAhead : lookahead? (ps ++ back) ending with
        | none =>
            rw [hTake]
            exact ih hRest
        | some fault =>
            -- The malformed number is at fault either way.
            unfold lookahead? at hAhead
            split at hAhead
            · rename_i offset text hNil
              rcases List.append_eq_nil_iff.mp hNil with ⟨rfl, rfl⟩
              cases hAhead
              rfl
            · cases hAhead
      · cases hAfter.symm.trans hNever

/- The machine never takes a character that is no token. -/
theorem after?_stray
    (m : Machine α)
    (c : Char) :
    m.after? (.stray c) = none := by
  rcases m.meets ⟨.stray c, 0⟩ with ⟨_, hNone, _⟩ | ⟨_, _, hNever, _⟩
  · exact absurd rfl (valid_of_refuses? hNone c)
  · exact hNever

/- The machine fails to take an unknown letter between commands. -/
theorem of_take_error
    {m : Machine α}
    {p : Placed α}
    {fault : Fault}
    (hTake : m.take p = .error fault) :
    (∃ again?, m.mode = .between again?) ∧
      ∃ letter,
        p.token = .command letter ∧
          Command.ofLetter? letter = none := by
  unfold take at hTake
  split at hTake
  · rename_i again? letter hMode hToken
    split at hTake
    · rename_i hLetter
      exact ⟨⟨again?, hMode⟩, letter, hToken, hLetter⟩
    · cases hTake
  all_goals cases hTake

/-
  A run fails at a token that it cannot take. Only an unknown
  letter between commands is passed over for a malformed number.
-/
theorem fault?_run_cons
    {m : Machine α}
    {p : Placed α}
    (ending : Ending)
    (rest : List (Placed α))
    (hNever : m.after? p.token = none) :
    ∃ fault : Fault,
      (m.run ending (p :: rest)).fault? = some fault ∧
        (fault.offset = p.offset ∨
          (∃ again?, m.mode = .between again?) ∧
          (∃ letter,
            p.token = .command letter ∧
              Command.ofLetter? letter = none) ∧
          rest = [] ∧ ∃ text, ending = .malformed fault.offset text) := by
  rcases m.meets p with
    ⟨_, _, _, hAfter⟩ | ⟨fault, hOffset, _, hRefuses | ⟨hNone, hTake⟩⟩
  · cases hNever.symm.trans hAfter
  · rw [run, hRefuses]
    exact ⟨fault, rfl, .inl hOffset⟩
  · rw [run, hNone, hTake]
    dsimp only
    cases hAhead : lookahead? rest ending with
    | none => exact ⟨fault, rfl, .inl hOffset⟩
    | some fault' =>
        rcases of_take_error hTake with ⟨hMode, hLetter⟩
        refine ⟨fault', rfl, .inr ⟨hMode, hLetter, ?_⟩⟩
        unfold lookahead? at hAhead
        split at hAhead
        · cases hAhead
          exact ⟨rfl, _, rfl⟩
        · cases hAhead

/-
  Between commands, a malformed number after a letter is reported
  before the letter is looked at.
-/
theorem fault?_run_ahead
    {m : Machine α}
    {p : Placed α}
    {again? : Option Command}
    {letter : Char}
    (hMode : m.mode = .between again?)
    (hLetter : p.token = .command letter)
    (offset : Nat)
    (text : String) :
    (m.run (.malformed offset text) [p]).fault? =
      some ⟨offset, .malformedNumber text⟩ := by
  have hNone : m.refuses? p = none := by
    simp [refuses?, hMode, hLetter]
  rw [run, hNone]
  rfl

end Machine

------------------------------------------------------------
-- Reported offsets
------------------------------------------------------------

/- A malformed number stands some bytes after a hidden letter. -/
theorem Hidden.pos
    {ts : List (Token α)}
    {after : List Char}
    {gap : Nat}
    (hHidden : Hidden ts after gap) :
    0 < gap := by
  cases hHidden with
  | behind _ _ hLetter _ _ =>
      rcases hLetter.scanned 0 with ⟨before, -, hSplit, -, hSome, -⟩
      rw [List.append_cancel_right hSplit]
      cases before with
      | nil => cases hSome
      | cons c cs =>
          rw [byteLength_cons]
          exact Nat.lt_add_right _ c.utf8Size_pos

/- What is scanned next stands where the text does. -/
theorem Next.nextOffset
    {offset : Nat}
    {cs : List Char}
    {lexemes : Lexemes α}
    (hNext : Next offset cs lexemes) :
    PathData.nextOffset lexemes.ending lexemes.tokens = offset := by
  cases hNext <;> rfl

/-
  The machine cannot take what is scanned at an offence after the
  tokens before it.
-/
theorem Offends.after?_eq_none
    {ts : List (Token α)}
    {after : List Char}
    {offset : Nat}
    {p : Placed α}
    {ps : List (Placed α)}
    {m : Machine α}
    (hOffends : Offends ts after)
    (hEnds : EndsBlanks after)
    (hViable : Viable ts)
    (hConsumed :
      ts.foldlM Machine.after? (.initial (α := α)) = some m)
    (hScan : (scan offset after).tokens = p :: ps) :
    m.after? p.token = none := by
  have hNext := scan_next (α := α) hEnds offset
  cases hOffends with
  | ended hOpen =>
      rw [scan] at hScan
      cases hScan
  | malformed hUnreadable =>
      generalize scan (α := α) offset _ = lexemes at hNext hScan
      cases hNext with
      | token hLexes => exact absurd hLexes (hUnreadable _ _)
      | malformed _ _ => cases hScan
      | stray _ _ =>
          rw [← (List.cons.inj hScan).1]
          exact m.after?_stray _
  | refused hToken hNever =>
      rcases hToken.scanned offset with
        ⟨before, qs, -, hTokens, -, hSame⟩
      rcases List.map_eq_singleton_iff.mp hTokens with ⟨q, rfl, rfl⟩
      rw [hSame] at hScan
      rw [← (List.cons.inj hScan).1]
      by_contra hTaken
      rcases Option.ne_none_iff_exists'.mp hTaken with ⟨m', hAfter⟩
      refine hNever (viable_iff.mpr ⟨?_, m', ?_⟩)
      · exact
          List.forall_mem_append.mpr
            ⟨(viable_iff.mp hViable).1, hToken.written⟩
      · rw [List.foldlM_append, hConsumed]
        simp [hAfter]

/- Where the data ends too early, the tokens are not accepted. -/
theorem Offends.not_accepted
    {ts : List (Token α)}
    (hOffends : Offends ts []) :
    ¬ Accepted ts := by
  cases hOffends with
  | ended hOpen => exact hOpen
  | refused hToken _ =>
      rcases hToken.scanned 0 with ⟨before, -, hSplit, -, hSome, -⟩
      rw [(List.append_eq_nil_iff.mp hSplit.symm).1] at hSome
      cases hSome

/- The machine fails at the end unless its tokens are accepted. -/
theorem Machine.fault?_run_nil
    {m : Machine α}
    {ts : List (Token α)}
    (hWritten : ∀ t ∈ ts, t.Written)
    (hConsumed :
      ts.foldlM Machine.after? (.initial (α := α)) = some m)
    (hOpen : ¬ Accepted ts)
    (offset : Nat) :
    ∃ fault,
      (m.run (.complete offset) []).fault? = some fault ∧
        fault.offset = offset := by
  rw [accepted_iff_between hWritten hConsumed] at hOpen
  have hTracks := tracks_of_consumed (.between .nil) hConsumed
  cases hTracks with
  | between => exact absurd ⟨_, rfl⟩ hOpen
  | within => exact ⟨_, rfl, rfl⟩

/-
  A letter behind which nothing but a malformed number is scanned
  is hidden, unless some command has it or is incomplete.
-/
theorem exists_hidden
    {ts : List (Token α)}
    {after : List Char}
    {letter : Char}
    {start offset later : Nat}
    {text : String}
    (hEnds : EndsBlanks after)
    (hAccepted : Accepted ts)
    (hUnknown : Command.ofLetter? letter = none)
    (hScan :
      scan (α := α) offset after =
        ⟨[⟨.command letter, start⟩], .malformed later text⟩) :
    ∃ gap, Hidden ts after gap ∧ later = offset + gap := by
  have hNext := scan_next (α := α) hEnds offset
  rw [hScan] at hNext
  cases hNext with
  | @token _ rest _ _ _ hLetter =>
      rcases exists_endsBlanks (α := α) rest with
        ⟨rest', hBlanks, hEnds'⟩
      have hLetter' := hLetter.append hBlanks
      rcases hLetter'.scanned start with
        ⟨before, ps, hSplit, hTokens, -, hSame⟩
      rcases List.map_eq_singleton_iff.mp hTokens with ⟨p, rfl, -⟩
      have hNext' :=
        scan_next (α := α) hEnds' (start + byteLength before)
      rw [hScan] at hSame
      generalize scan (α := α) (start + byteLength before) rest' =
        lexemes at hNext' hSame
      -- Nothing but a malformed number is left behind the letter.
      cases hNext' with
      | ended => cases hSame
      | token _ => cases hSame
      | stray _ _ => cases hSame
      | malformed hStarts hUnreadable =>
          cases hSame
          subst hSplit
          exact
            ⟨_, .behind hAccepted hUnknown hLetter' hStarts hUnreadable,
              rfl⟩

namespace FirstOffence

variable {data : String} {before after : List Char}
variable {ts : List (Token α)}

/-
  Data with an offence is scanned as the tokens before it and what
  is scanned from there. The machine takes the former.
-/
theorem scanned
    (hFirst : FirstOffence data before ts after) :
    ∃ ps m,
      ps.map Placed.token = ts ∧
        ts.foldlM Machine.after? (.initial (α := α)) = some m ∧
        scan 0 data.toList =
          { scan (α := α) (byteLength before) after with
            tokens :=
              ps ++ (scan (byteLength before) after).tokens } := by
  rcases hFirst.read.scanned 0 with
    ⟨before', ps, hSplit, hTokens, -, hScan⟩
  rw [hFirst.split] at hSplit
  rw [← List.append_cancel_right hSplit, Nat.zero_add] at hScan
  rcases viable_iff.mp hFirst.viable with ⟨-, m, hConsumed⟩
  exact ⟨ps, m, hTokens, hConsumed, hScan⟩

/- Data with an offence fails as the machine does at the offence. -/
theorem fault?_eq
    (hFirst : FirstOffence data before ts after) :
    ∃ m,
      ts.foldlM Machine.after? (.initial (α := α)) = some m ∧
        (trace (α := α) data).fault? =
          (m.run (scan (α := α) (byteLength before) after).ending
            (scan (byteLength before) after).tokens).fault? := by
  rcases hFirst.scanned with ⟨ps, m, rfl, hConsumed, hScan⟩
  refine ⟨m, hConsumed, ?_⟩
  unfold trace
  rw [hScan]
  exact Machine.fault?_run_append _ _ hConsumed

/-
  Data with an offence is rejected, at the offence or at the
  malformed number that hides it.
-/
theorem fault
    (hFirst : FirstOffence data before ts after) :
    ∃ fault,
      (trace (α := α) data).fault? = some fault ∧
        (fault.offset = byteLength before ∨
          ∃ gap,
            Hidden ts after gap ∧
              fault.offset = byteLength before + gap) := by
  rcases hFirst.fault?_eq with ⟨m, hConsumed, hFault⟩
  rw [hFault]
  have hNext := scan_next (α := α) hFirst.ends (byteLength before)
  have hOffset := hNext.nextOffset
  have hWritten := (viable_iff.mp hFirst.viable).1
  cases hTokens :
      (scan (α := α) (byteLength before) after).tokens with
  | nil =>
      generalize scan (α := α) (byteLength before) after = lexemes
        at hNext hTokens
      cases hNext with
      | token _ => cases hTokens
      | stray _ _ => cases hTokens
      | malformed _ _ => exact ⟨_, rfl, .inl rfl⟩
      | ended =>
          rcases
            Machine.fault?_run_nil hWritten hConsumed
              hFirst.offends.not_accepted (byteLength before) with
            ⟨fault, hRun, hPlace⟩
          exact ⟨fault, hRun, .inl hPlace⟩
  | cons p rest =>
      rw [hTokens] at hOffset
      have hNever :=
        hFirst.offends.after?_eq_none hFirst.ends hFirst.viable
          hConsumed hTokens
      rcases Machine.fault?_run_cons _ rest hNever with
        ⟨fault, hRun, hPlace⟩
      refine ⟨fault, hRun, hPlace.imp (·.trans hOffset) ?_⟩
      rintro ⟨hMode, ⟨letter, hLetter, hUnknown⟩, rfl, text, hEnding⟩
      have hAccepted :=
        (accepted_iff_between hWritten hConsumed).mpr hMode
      have hScan :
          scan (α := α) (byteLength before) after =
            ⟨[⟨.command letter, p.offset⟩],
              .malformed fault.offset text⟩ := by
        rw [← hEnding, ← hLetter, ← hTokens]
      exact exists_hidden hFirst.ends hAccepted hUnknown hScan

/- A malformed number that hides an offence is reported. -/
theorem fault_of_hidden
    {gap : Nat}
    (hFirst : FirstOffence data before ts after)
    (hHidden : Hidden ts after gap) :
    ∃ fault,
      (trace (α := α) data).fault? = some fault ∧
        fault.offset = byteLength before + gap := by
  rcases hFirst.fault?_eq with ⟨m, hConsumed, hFault⟩
  rw [hFault]
  cases hHidden with
  | @behind letter c text tail hBefore hUnknown hLetter hStarts
      hUnreadable =>
      rcases hLetter.scanned (byteLength before) with
        ⟨text', ps, hSplit, hTokens, -, hSame⟩
      rw [← List.append_cancel_right hSplit] at hSame
      rcases List.map_eq_singleton_iff.mp hTokens with
        ⟨p, rfl, hCommand⟩
      have hWritten := (accepted_iff.mp hBefore).1
      rcases (accepted_iff_between hWritten hConsumed).mp hBefore with
        ⟨again?, hMode⟩
      have hEnds : EndsBlanks (c :: tail) := by
        rintro d rest hCons
        rw [← (List.cons.inj hCons).1]
        exact isSpace_of_startsNumber hStarts
      have hNext :=
        scan_next (α := α) hEnds
          (byteLength before + byteLength text)
      rw [hSame]
      generalize
        scan (α := α) (byteLength before + byteLength text) (c :: tail) =
          lexemes at hNext ⊢
      cases hNext with
      | token hLexes => exact absurd hLexes (hUnreadable _ _)
      | stray hNot _ => rw [hStarts] at hNot; cases hNot
      | malformed _ _ =>
          exact ⟨_, Machine.fault?_run_ahead hMode hCommand _ _, rfl⟩

/- The machine takes nothing that is scanned from an offence on. -/
theorem eq_nil_of_consumed
    {ps rest : List (Placed α)}
    {m : Machine α}
    (hFirst : FirstOffence data before ts after)
    (hScan :
      (scan (byteLength before) after).tokens = ps ++ rest)
    (hConsumed :
      (ts ++ ps.map Placed.token).foldlM Machine.after?
          (.initial (α := α)) =
        some m) :
    ps = [] := by
  cases ps with
  | nil => rfl
  | cons p ps =>
      rw [List.foldlM_append] at hConsumed
      rcases Option.bind_eq_some_iff.mp hConsumed with
        ⟨m', hBefore, hNext⟩
      rw [List.map_cons, List.foldlM_cons,
        hFirst.offends.after?_eq_none hFirst.ends hFirst.viable hBefore
          hScan] at hNext
      cases hNext

/- There is one first offence. -/
theorem offset_unique
    {before' after' : List Char}
    {us : List (Token α)}
    (hFirst : FirstOffence data before ts after)
    (hOther : FirstOffence data before' us after') :
    byteLength before' = byteLength before := by
  rcases hFirst.scanned with ⟨ps, m, rfl, hConsumed, hScan⟩
  rcases hOther.scanned with ⟨qs, m', rfl, hConsumed', hScan'⟩
  have hSame := hScan.symm.trans hScan'
  rw [Lexemes.mk.injEq] at hSame
  rcases hSame with ⟨hTokens, hEnding⟩
  have hNone :
      (scan (α := α) (byteLength before) after).tokens =
        (scan (byteLength before') after').tokens := by
    rcases List.append_eq_append_iff.mp hTokens with
      ⟨more, rfl, hMore⟩ | ⟨more, rfl, hMore⟩
    · rw [List.map_append] at hConsumed'
      rw [hFirst.eq_nil_of_consumed hMore hConsumed'] at hMore
      exact hMore
    · rw [List.map_append] at hConsumed
      rw [hOther.eq_nil_of_consumed hMore hConsumed] at hMore
      exact hMore.symm
  have hOffset :=
    (scan_next (α := α) hFirst.ends (byteLength before)).nextOffset
  have hOffset' :=
    (scan_next (α := α) hOther.ends (byteLength before')).nextOffset
  rw [← hOffset, ← hOffset', hNone, hEnding]

end FirstOffence

/- Data that is rejected has a first offence. -/
theorem exists_firstOffence
    {data : String}
    (hRejected : (trace (α := α) data).fault? ≠ none) :
    ∃ before, ∃ ts : List (Token α), ∃ after,
      FirstOffence data before ts after := by
  have hNever :
      ∀ us : List (Token α),
        Lexes data.toList us [] → ¬ Accepted ([] ++ us) := by
    intro us hLexes hAccepted
    rcases accepted_iff.mp hAccepted with ⟨-, cs, hSentence⟩
    have hSpells : Spells data cs := ⟨us, hLexes, hSentence⟩
    exact hRejected (congrArg Trace.fault? (trace_of_spells hSpells))
  rcases exists_offends data.toList viable_nil hNever with
    ⟨ts, after, hRead, hViable, hEnds, hOffends⟩
  rcases hRead.scanned 0 with ⟨before, -, hSplit, -⟩
  exact ⟨before, ts, after, hSplit, hRead, hViable, hEnds, hOffends⟩

/-
  Data is accepted if and only if there is no offence in it.
  Otherwise there is one first offence, and its offset is the one
  that is reported, unless the offence is a letter that a malformed
  number hides: then that of the number is reported.
-/
theorem trace_offence
    (data : String) :
    ((trace (α := α) data).fault? = none ↔
      ∀ before (ts : List (Token α)) after,
        ¬ FirstOffence data before ts after) ∧
    ∀ fault,
      (trace (α := α) data).fault? = some fault →
        ∃ before, ∃ ts : List (Token α), ∃ after,
          FirstOffence data before ts after ∧
            (∀ before' after', ∀ us : List (Token α),
              FirstOffence data before' us after' →
                byteLength before' = byteLength before) ∧
            (fault.offset = byteLength before ↔
              ∀ gap, ¬ Hidden ts after gap) ∧
            ∀ gap,
              Hidden ts after gap →
                fault.offset = byteLength before + gap := by
  constructor
  · constructor
    · intro hAccepted before ts after hFirst
      rcases hFirst.fault with ⟨fault, hFault, -⟩
      cases hAccepted.symm.trans hFault
    · intro hNone
      by_contra hRejected
      rcases exists_firstOffence hRejected with
        ⟨before, ts, after, hFirst⟩
      exact hNone before ts after hFirst
  · intro fault hFault
    rcases exists_firstOffence (by rw [hFault]; exact nofun) with
      ⟨before, ts, after, hFirst⟩
    have hHidden :
        ∀ gap,
          Hidden ts after gap →
            fault.offset = byteLength before + gap := by
      intro gap hGap
      rcases hFirst.fault_of_hidden hGap with ⟨fault', hFault', hOffset⟩
      cases hFault.symm.trans hFault'
      exact hOffset
    refine
      ⟨before, ts, after, hFirst, fun _ _ _ hOther =>
        hFirst.offset_unique hOther, ⟨?_, ?_⟩, hHidden⟩
    · intro hOffset gap hGap
      have hLater := hHidden gap hGap
      have hPos := hGap.pos
      omega
    · intro hNone
      rcases hFirst.fault with ⟨fault', hFault', hPlace⟩
      cases hFault.symm.trans hFault'
      rcases hPlace with hOffset | ⟨gap, hGap, -⟩
      · exact hOffset
      · exact absurd hGap (hNone gap)

------------------------------------------------------------
-- A letter that no command has
------------------------------------------------------------

namespace UnknownLetter

/- A letter that no command has, and a number without digits. -/
def data : String :=
  "X -"

/- The letter is at fault. -/
theorem firstOffence :
    FirstOffence (α := ℚ) data [] [] data.toList where
  split := rfl
  read := .done _
  viable := viable_nil
  ends := by
    rintro c rest hSplit
    cases hSplit
    rfl
  offends := by
    refine .refused (.command (c := 'X') rfl (.done _)) ?_
    rintro hViable
    rcases viable_iff.mp hViable with ⟨-, m, hConsumed⟩
    cases hConsumed

end UnknownLetter

/- The number is reported, and the letter before it is at fault. -/
theorem UnknownLetter.passed_over :
    (trace (α := ℚ) data).fault? =
        some ⟨2, .malformedNumber "-"⟩ ∧
      ∃ before, ∃ ts : List (Token ℚ), ∃ after,
        FirstOffence data before ts after ∧
          byteLength before = 0 ∧ ∃ gap, Hidden ts after gap := by
  have hFault :
      (trace (α := ℚ) data).fault? =
        some ⟨2, .malformedNumber "-"⟩ := by
    decide +kernel
  rcases (trace_offence data).2 _ hFault with
    ⟨before, ts, after, hFirst, hUnique, hOffset, -⟩
  have hStart := hUnique _ _ _ firstOffence
  refine ⟨hFault, before, ts, after, hFirst, hStart.symm, ?_⟩
  by_contra hNone
  rw [← hStart, byteLength_nil] at hOffset
  exact
    absurd (hOffset.mpr (not_exists.mp hNone)) (by decide)

end FixedPage.PathData
