import FixedPage.Proofs.Path.Grammar

/-
  This file follows the machine that evaluates path data. After
  some tokens it has drawn what the complete clauses among them
  draw, and what it waits for tells which tokens of an
  incomplete clause came after them.

  Main declarations:
    * `Row`
    * `Machine.after?`
    * `Row.consumed`
    * `Tracks`
    * `tracks_of_consumed`
    * `sentence_iff_row`
-/

namespace FixedPage.PathData

variable {α : Type}

------------------------------------------------------------
-- Rows of clauses
------------------------------------------------------------

/- Tokens fill some slots; their numbers come in order. -/
inductive Fits :
    List Slot → List (Token α) → List α → Prop
| nil :
    Fits [] [] []
| number
    {slots : List Slot}
    {ts : List (Token α)}
    {numbers : List α}
    (value : α)
    (hRest : Fits slots ts numbers) :
    Fits (.number :: slots) (.number value :: ts) (value :: numbers)
| comma
    {slots : List Slot}
    {ts : List (Token α)}
    {numbers : List α}
    (hRest : Fits slots ts numbers) :
    Fits (.comma :: slots) (.comma :: ts) numbers

namespace Fits

variable {slots : List Slot} {ts : List (Token α)}
variable {numbers : List α}

theorem of_nil
    (hFits : Fits [] ts numbers) :
    ts = [] ∧ numbers = [] := by
  cases hFits
  exact ⟨rfl, rfl⟩

theorem of_number
    (hFits : Fits (.number :: slots) ts numbers) :
    ∃ value us more,
      ts = .number value :: us ∧ numbers = value :: more ∧
        Fits slots us more := by
  cases hFits with
  | number value hRest => exact ⟨value, _, _, rfl, rfl, hRest⟩

theorem of_point
    (slots : List Slot)
    (hFits : Fits (pointSlots ++ slots) ts numbers) :
    ∃ (p : Point α) (us : List (Token α)) (more : List α),
      ts = pointTokens p ++ us ∧ numbers = p.x :: p.y :: more ∧
        Fits slots us more := by
  rcases hFits.of_number with ⟨x, _, _, rfl, rfl, hComma⟩
  cases hComma with
  | comma hRest =>
      rcases of_number hRest with ⟨y, us, more, rfl, rfl, hMore⟩
      exact ⟨⟨x, y⟩, us, more, rfl, rfl, hMore⟩

theorem point
    (p : Point α)
    (hRest : Fits slots ts numbers) :
    Fits (pointSlots ++ slots) (pointTokens p ++ ts)
      (p.x :: p.y :: numbers) :=
  .number p.x (.comma (.number p.y hRest))

end Fits

/- One group of operands of a verb. -/
inductive VerbOperands
    [Scalar α] :
    Verb → List (Token α) → Group α → Prop
| groups
    {letter : Char}
    {verb : Verb}
    {ts : List (Token α)}
    {g : Group α}
    (hVerb : Verb.ofLetter? letter = some verb)
    (hOperands : Operands letter ts g) :
    VerbOperands verb ts g
| close :
    VerbOperands .close [] .close
| fill
    (n : α) :
    VerbOperands .fill [.number n]
      (.fill (if n == 0 then .evenOdd else .nonZero))

section

variable [Scalar α]

/- Tokens that fill the slots of a verb are its operands. -/
theorem Fits.verbOperands
    {verb : Verb}
    {ts : List (Token α)}
    {numbers : List α}
    (hFits : Fits verb.slots ts numbers) :
    ∃ g, verb.group? numbers = some g ∧ VerbOperands verb ts g := by
  cases verb with
  | move =>
      rcases of_point [] hFits with ⟨p, _, _, rfl, rfl, hNil⟩
      rcases hNil.of_nil with ⟨rfl, rfl⟩
      exact ⟨_, rfl, .groups rfl (.move p)⟩
  | line =>
      rcases of_point [] hFits with ⟨p, _, _, rfl, rfl, hNil⟩
      rcases hNil.of_nil with ⟨rfl, rfl⟩
      exact ⟨_, rfl, .groups rfl (.line p)⟩
  | horizontal =>
      rcases of_number hFits with ⟨x, _, _, rfl, rfl, hNil⟩
      rcases hNil.of_nil with ⟨rfl, rfl⟩
      exact ⟨_, rfl, .groups rfl (.horizontal x)⟩
  | vertical =>
      rcases of_number hFits with ⟨y, _, _, rfl, rfl, hNil⟩
      rcases hNil.of_nil with ⟨rfl, rfl⟩
      exact ⟨_, rfl, .groups rfl (.vertical y)⟩
  | cubic =>
      rcases of_point (pointSlots ++ pointSlots) hFits with
        ⟨p₁, _, _, rfl, rfl, hMore⟩
      rcases of_point pointSlots hMore with
        ⟨p₂, _, _, rfl, rfl, hLast⟩
      rcases of_point [] hLast with
        ⟨p₃, _, _, rfl, rfl, hNil⟩
      rcases hNil.of_nil with ⟨rfl, rfl⟩
      exact ⟨_, rfl, .groups rfl (.cubic p₁ p₂ p₃)⟩
  | quadratic =>
      rcases of_point pointSlots hFits with
        ⟨p₁, _, _, rfl, rfl, hLast⟩
      rcases of_point [] hLast with
        ⟨p₂, _, _, rfl, rfl, hNil⟩
      rcases hNil.of_nil with ⟨rfl, rfl⟩
      exact ⟨_, rfl, .groups rfl (.quadratic p₁ p₂)⟩
  | smooth =>
      rcases of_point pointSlots hFits with
        ⟨p₂, _, _, rfl, rfl, hLast⟩
      rcases of_point [] hLast with
        ⟨p₃, _, _, rfl, rfl, hNil⟩
      rcases hNil.of_nil with ⟨rfl, rfl⟩
      exact ⟨_, rfl, .groups rfl (.smooth p₂ p₃)⟩
  | arc =>
      rcases of_point ([.number, .number, .number] ++ pointSlots)
        hFits with
        ⟨size, _, _, rfl, rfl, hFlags⟩
      rcases of_number hFlags with ⟨rotation, _, _, rfl, rfl, hLarge⟩
      rcases of_number hLarge with ⟨isLarge, _, _, rfl, rfl, hSweep⟩
      rcases of_number hSweep with ⟨sweep, _, _, rfl, rfl, hLast⟩
      rcases of_point [] hLast with
        ⟨target, _, _, rfl, rfl, hNil⟩
      rcases hNil.of_nil with ⟨rfl, rfl⟩
      exact
        ⟨_, rfl, .groups rfl (.arc size target rotation isLarge sweep)⟩
  | close =>
      rcases of_nil hFits with ⟨rfl, rfl⟩
      exact ⟨_, rfl, .close⟩
  | fill =>
      rcases of_number hFits with ⟨n, _, _, rfl, rfl, hNil⟩
      rcases hNil.of_nil with ⟨rfl, rfl⟩
      exact ⟨_, rfl, .fill n⟩

/- The operands of a verb fill its slots. -/
theorem VerbOperands.fits
    {verb : Verb}
    {ts : List (Token α)}
    {g : Group α}
    (hOperands : VerbOperands verb ts g) :
    ∃ numbers,
      Fits verb.slots ts numbers ∧ verb.group? numbers = some g := by
  cases hOperands with
  | close => exact ⟨[], .nil, rfl⟩
  | fill n => exact ⟨[n], .number n .nil, rfl⟩
  | groups hVerb hOperands =>
      cases hOperands <;> cases hVerb
      · exact ⟨_, .point _ .nil, rfl⟩
      · exact ⟨_, .point _ .nil, rfl⟩
      · exact ⟨_, .number _ .nil, rfl⟩
      · exact ⟨_, .number _ .nil, rfl⟩
      · exact ⟨_, .point _ (.point _ (.point _ .nil)), rfl⟩
      · exact ⟨_, .point _ (.point _ .nil), rfl⟩
      · exact ⟨_, .point _ (.point _ .nil), rfl⟩
      · exact
          ⟨_, .point _ (.number _ (.number _ (.number _
            (.point _ .nil)))), rfl⟩

end

/-
  What may stand before a group of operands of a command: its
  letter, or nothing if the group repeats the command.
-/
inductive Leads :
    Option Command → List (Token α) → Command → Prop
| letter
    {again? : Option Command}
    {c : Char}
    {command : Command}
    (hLetter : Command.ofLetter? c = some command) :
    Leads again? [.command c] command
| again
    (command : Command) :
    Leads (some command) [] command

/-
  Tokens that are a row of complete clauses, the last clause
  first, and the command that a further group would belong to.
-/
inductive Row
    [Scalar α] :
    List (Token α) → List (Clause α) → Option Command → Prop
| nil :
    Row [] [] none
| clause
    {ts lead us : List (Token α)}
    {before : List (Clause α)}
    {again? : Option Command}
    {command : Command}
    {g : Group α}
    (hRow : Row ts before again?)
    (hLead : Leads again? lead command)
    (hOperands : VerbOperands command.verb us g) :
    Row (ts ++ (lead ++ us)) (⟨command.relative, g⟩ :: before)
      command.repeated?

/-
  A command that is repeated starts with a number and is
  repeated again.
-/
theorem repeated_of_repeated
    {command command' : Command}
    (hRepeated : command.repeated? = some command') :
    command'.repeated? = some command' ∧
      ∃ slots, command'.verb.slots = .number :: slots := by
  rcases command with ⟨verb, relative⟩
  cases verb <;> cases hRepeated <;> exact ⟨rfl, _, rfl⟩

/- So is the command that a row may go on with. -/
theorem Row.repeated
    [Scalar α]
    {ts : List (Token α)}
    {before : List (Clause α)}
    {command : Command}
    (hRow : Row ts before (some command)) :
    command.repeated? = some command ∧
      ∃ slots, command.verb.slots = .number :: slots := by
  generalize hAgain : some command = again? at hRow
  cases hRow with
  | nil => cases hAgain
  | clause =>
      rw [← hAgain]
      exact repeated_of_repeated hAgain.symm

------------------------------------------------------------
-- Pens
------------------------------------------------------------

section

variable [Scalar α]

/- The pen after some clauses, the last one first. -/
def penAfter
    (before : List (Clause α)) : Pen α :=
  ⟨currentPoint before, subpathStart before, reach before⟩

/- A pen performs a clause as it is told from those before it. -/
theorem perform_penAfter
    (before : List (Clause α))
    (c : Clause α) :
    (penAfter before).perform c.relative c.group =
      (penAfter (c :: before), callsOf before c) := by
  rcases c with ⟨relative, group⟩
  cases group <;>
    simp only [Pen.perform, penAfter, callsOf, currentPoint,
      subpathStart, reach, placeAfter, Pen.place, Pen.offset,
      Pen.goTo, Pen.endCurve]

------------------------------------------------------------
-- Consuming tokens
------------------------------------------------------------

namespace Machine

/- The machine after a token, if the token may come next. -/
def after?
    (m : Machine α)
    (t : Token α) : Option (Machine α) :=
  match m.refuses? ⟨t, 0⟩ with
  | some _ => none
  | none => (m.take ⟨t, 0⟩).toOption

/- The machine after some clauses, the last one first. -/
def ofClauses
    (before : List (Clause α))
    (mode : Mode α) : Machine α :=
  ⟨penAfter before, mode, (callsUpTo before).reverse⟩

/- A complete group of operands is performed. -/
theorem complete_ofClauses
    {before : List (Clause α)}
    {command : Command}
    {numbers : List α}
    {g : Group α}
    (mode : Mode α)
    (hGroup : command.verb.group? numbers = some g) :
    (ofClauses before mode).complete command numbers =
      ofClauses (⟨command.relative, g⟩ :: before)
        (.between command.repeated?) := by
  unfold complete
  rw [hGroup]
  have hPerform := perform_penAfter before ⟨command.relative, g⟩
  simp only [ofClauses, hPerform, callsUpTo, List.reverse_append]

/- A group that is begun is filled and performed. -/
theorem fill_consumes
    {before : List (Clause α)}
    {command : Command}
    {slots : List Slot}
    {us : List (Token α)}
    {numbers : List α}
    {g : Group α}
    (hFits : Fits slots us numbers)
    (mode : Mode α)
    (taken : List α)
    (hGroup :
      command.verb.group? (taken.reverse ++ numbers) = some g) :
    us.foldlM after?
        ((ofClauses before mode).fill command slots taken) =
      some
        (ofClauses (⟨command.relative, g⟩ :: before)
          (.between command.repeated?)) := by
  induction hFits generalizing mode taken with
  | nil =>
      rw [List.append_nil] at hGroup
      exact congrArg some (complete_ofClauses mode hGroup)
  | @number slots ts numbers value _ ih =>
      have hNext :=
        ih (.within command (.number :: slots) taken) (value :: taken)
          (by simpa using hGroup)
      rw [List.foldlM_cons]
      exact hNext
  | @comma slots ts numbers _ ih =>
      have hNext :=
        ih (.within command (.comma :: slots) taken) taken hGroup
      rw [List.foldlM_cons]
      exact hNext

end Machine

/- A row of clauses is consumed and drawn. -/
theorem Row.consumed
    {ts : List (Token α)}
    {before : List (Clause α)}
    {again? : Option Command}
    (hRow : Row ts before again?) :
    ts.foldlM Machine.after? (Machine.initial (α := α)) =
      some (Machine.ofClauses before (.between again?)) := by
  induction hRow with
  | nil => rfl
  | @clause ts lead us before again? command g hRow hLead hOperands ih =>
      rcases hOperands.fits with ⟨numbers, hFits, hGroup⟩
      rw [List.foldlM_append, ih, Option.bind_eq_bind,
        Option.bind_some, List.foldlM_append]
      cases hLead with
      | @letter _ c _ hLetter =>
          have hFirst :
              [Token.command c].foldlM Machine.after?
                  (Machine.ofClauses before (.between again?)) =
                some
                  ((Machine.ofClauses before (.between again?)).fill
                    command command.verb.slots []) := by
            simp [Machine.after?, Machine.refuses?, Machine.take,
              Machine.ofClauses, hLetter, Except.toOption]
          rw [hFirst, Option.bind_eq_bind, Option.bind_some]
          exact Machine.fill_consumes hFits _ [] hGroup
      | again =>
          rcases hRow.repeated.2 with ⟨slots, hSlots⟩
          rw [hSlots] at hFits
          rcases hFits.of_number with
            ⟨value, us, more, rfl, rfl, hMore⟩
          have hFirst :
              (Machine.ofClauses before
                (.between (some command))).after? (.number value) =
                some
                  ((Machine.ofClauses before
                    (.between (some command))).fill command slots
                      [value]) := by
            simp [Machine.after?, Machine.refuses?, Machine.take,
              Machine.ofClauses, hSlots, Except.toOption]
          rw [List.foldlM_nil, pure_bind, List.foldlM_cons, hFirst,
            Option.bind_eq_bind, Option.bind_some]
          exact Machine.fill_consumes hMore _ [value] hGroup

------------------------------------------------------------
-- What the machine knows
------------------------------------------------------------

/-
  The machine has drawn a row of clauses, and it waits for the
  next one or for the rest of an incomplete one.
-/
inductive Tracks :
    Machine α → List (Token α) → Prop
| between
    {ts : List (Token α)}
    {before : List (Clause α)}
    {again? : Option Command}
    (hRow : Row ts before again?) :
    Tracks (.ofClauses before (.between again?)) ts
| within
    {ts lead us : List (Token α)}
    {before : List (Clause α)}
    {again? : Option Command}
    {command : Command}
    {done slots : List Slot}
    {slot : Slot}
    {numbers : List α}
    (hRow : Row ts before again?)
    (hLead : Leads again? lead command)
    (hFits : Fits done us numbers)
    (hSlots : command.verb.slots = done ++ slot :: slots) :
    Tracks
      (.ofClauses before
        (.within command (slot :: slots) numbers.reverse))
      (ts ++ (lead ++ us))

namespace Fits

omit [Scalar α] in
/- One more slot is filled by a number. -/
theorem snoc_number
    {slots : List Slot}
    {ts : List (Token α)}
    {numbers : List α}
    (hFits : Fits slots ts numbers)
    (value : α) :
    Fits (slots ++ [.number]) (ts ++ [.number value])
      (numbers ++ [value]) := by
  induction hFits with
  | nil => exact .number value .nil
  | number first _ ih => exact .number first ih
  | comma _ ih => exact .comma ih

omit [Scalar α] in
/- One more slot is filled by a comma. -/
theorem snoc_comma
    {slots : List Slot}
    {ts : List (Token α)}
    {numbers : List α}
    (hFits : Fits slots ts numbers) :
    Fits (slots ++ [.comma]) (ts ++ [.comma]) numbers := by
  induction hFits with
  | nil => exact .comma .nil
  | number first _ ih => exact .number first ih
  | comma _ ih => exact .comma ih

end Fits

/- A group that is begun goes on or is performed. -/
theorem Tracks.fill
    {ts lead us : List (Token α)}
    {before : List (Clause α)}
    {again? : Option Command}
    {command : Command}
    {done slots : List Slot}
    {numbers : List α}
    (mode : Mode α)
    (hRow : Row ts before again?)
    (hLead : Leads again? lead command)
    (hFits : Fits done us numbers)
    (hSlots : command.verb.slots = done ++ slots) :
    Tracks
      ((Machine.ofClauses before mode).fill command slots
        numbers.reverse)
      (ts ++ (lead ++ us)) := by
  cases slots with
  | cons slot slots => exact .within hRow hLead hFits hSlots
  | nil =>
      rw [List.append_nil] at hSlots
      rw [← hSlots] at hFits
      rcases hFits.verbOperands with ⟨g, hGroup, hOperands⟩
      unfold Machine.fill
      rw [List.reverse_reverse,
        Machine.complete_ofClauses mode hGroup]
      exact .between (.clause hRow hLead hOperands)

/- A token that the machine takes is tracked. -/
theorem Tracks.after
    {m m' : Machine α}
    {ts : List (Token α)}
    {t : Token α}
    (hTracks : Tracks m ts)
    (hAfter : m.after? t = some m') :
    Tracks m' (ts ++ [t]) := by
  cases hTracks with
  | @between _ before again? hRow =>
      cases t with
      | number value =>
          cases again? with
          | none => cases hAfter
          | some command =>
              cases hAfter
              rcases hRow.repeated.2 with ⟨slots, hSlots⟩
              have hNext :=
                Tracks.fill (.between (some command)) hRow
                  (.again command) (.number value .nil) hSlots
              simpa [hSlots, Machine.ofClauses] using hNext
      | comma => cases again? <;> cases hAfter
      | stray c => cases again? <;> cases hAfter
      | command c =>
          have hTake :
              (Machine.ofClauses before
                (.between again?)).after? (.command c) =
                (Command.ofLetter? c).map fun command =>
                  (Machine.ofClauses before (.between again?)).fill
                    command command.verb.slots [] := by
            cases hLetter : Command.ofLetter? c <;>
              simp [Machine.after?, Machine.refuses?, Machine.take,
                Machine.ofClauses, hLetter, Except.toOption]
          rw [hTake] at hAfter
          cases hLetter : Command.ofLetter? c with
          | none =>
              rw [hLetter] at hAfter
              cases hAfter
          | some command =>
              rw [hLetter] at hAfter
              cases hAfter
              exact .fill _ hRow (.letter hLetter) .nil rfl
  | @within ts lead us before again? command done slots slot numbers
      hRow hLead hFits hSlots =>
      have hNext :
          command.verb.slots = (done ++ [slot]) ++ slots := by
        rw [hSlots, List.append_assoc]
        rfl
      rw [List.append_assoc, List.append_assoc]
      cases slot with
      | number =>
          cases t with
          | number value =>
              cases hAfter
              have hFill :=
                Tracks.fill
                  (.within command (.number :: slots)
                    numbers.reverse)
                  hRow hLead (hFits.snoc_number value) hNext
              rw [List.reverse_append] at hFill
              exact hFill
          | _ => cases hAfter
      | comma =>
          cases t with
          | comma =>
              cases hAfter
              exact
                .fill
                  (.within command (.comma :: slots)
                    numbers.reverse)
                  hRow hLead hFits.snoc_comma hNext
          | _ => cases hAfter

/- All tokens that the machine takes are tracked. -/
theorem tracks_of_consumed
    {m m' : Machine α}
    {ts us : List (Token α)}
    (hTracks : Tracks m ts)
    (hConsumed : us.foldlM Machine.after? m = some m') :
    Tracks m' (ts ++ us) := by
  induction us generalizing m ts with
  | nil =>
      cases hConsumed
      rwa [List.append_nil]
  | cons t us ih =>
      rw [List.foldlM_cons] at hConsumed
      cases hAfter : m.after? t with
      | none =>
          rw [hAfter] at hConsumed
          cases hConsumed
      | some next =>
          rw [hAfter] at hConsumed
          have hNext := ih (hTracks.after hAfter) hConsumed
          rwa [List.append_assoc] at hNext

------------------------------------------------------------
-- Sentences
------------------------------------------------------------

/- A command letter stands for a verb, lowercase for relative. -/
theorem ofLetter?_of_verb
    {letter : Char}
    {verb : Verb}
    (hVerb : Verb.ofLetter? letter.toUpper = some verb)
    (hFill : verb ≠ .fill) :
    Command.ofLetter? letter = some ⟨verb, letter.isLower⟩ := by
  unfold Command.ofLetter?
  rw [hVerb]
  cases verb <;> first | rfl | exact absurd rfl hFill

/- One group of operands of a letter is one of its verb. -/
theorem Operands.verbOperands
    {letter : Char}
    {ts : List (Token α)}
    {g : Group α}
    (hOperands : Operands letter ts g) :
    ∃ verb,
      Verb.ofLetter? letter = some verb ∧ verb ≠ .fill ∧
        VerbOperands verb ts g ∧
        ∃ further,
          Verb.ofLetter? (furtherLetter letter) = some further ∧
            ∀ relative,
              Command.repeated? ⟨verb, relative⟩ =
                some ⟨further, relative⟩ := by
  have hGroup := hOperands
  cases hOperands <;>
    exact
      ⟨_, rfl, nofun, .groups rfl hGroup, _, rfl, fun _ => rfl⟩

omit [Scalar α] in
/- Groups of operands begin with one. -/
theorem Groups.first
    {letter : Char}
    {relative : Bool}
    {ts : List (Token α)}
    {cs : List (Clause α)}
    (hGroups : Groups letter relative ts cs) :
    ∃ us g, Operands (α := α) letter us g := by
  cases hGroups with
  | last _ hGroup => exact ⟨_, _, hGroup⟩
  | more hGroup _ => exact ⟨_, _, hGroup⟩

/- Groups of operands go on a row of clauses. -/
theorem Row.groups
    {letter : Char}
    {relative : Bool}
    {verb : Verb}
    {ts lead us : List (Token α)}
    {before cs : List (Clause α)}
    {again? : Option Command}
    (hRow : Row ts before again?)
    (hVerb : Verb.ofLetter? letter = some verb)
    (hLead : Leads again? lead ⟨verb, relative⟩)
    (hGroups : Groups letter relative us cs) :
    ∃ again?,
      Row (ts ++ (lead ++ us)) (cs.reverse ++ before) again? := by
  induction hGroups generalizing ts lead before again? verb with
  | @last letter us g relative hGroup =>
      rcases hGroup.verbOperands with ⟨verb', hVerb', _, hOperands, _⟩
      cases hVerb.symm.trans hVerb'
      exact ⟨_, .clause hRow hLead hOperands⟩
  | @more letter relative us vs g cs hGroup _ ih =>
      rcases hGroup.verbOperands with
        ⟨verb', hVerb', _, hOperands, further, hFurther, hRepeated⟩
      cases hVerb.symm.trans hVerb'
      have hFirst := Row.clause hRow hLead hOperands
      rw [hRepeated relative] at hFirst
      rcases ih hFirst hFurther (.again _) with ⟨again', hRest⟩
      refine ⟨again', ?_⟩
      simpa only [List.append_assoc, List.nil_append,
        List.reverse_cons, List.cons_append] using hRest

/- A sentence goes on a row of clauses. -/
theorem Row.sentence
    {ts us : List (Token α)}
    {before cs : List (Clause α)}
    {again? : Option Command}
    (hRow : Row ts before again?)
    (hSentence : Sentence us cs) :
    ∃ again?, Row (ts ++ us) (cs.reverse ++ before) again? := by
  induction hSentence generalizing ts before again? with
  | nil => exact ⟨again?, by simpa using hRow⟩
  | @command letter us vs cs ds hOperands _ ih =>
      have hCommand :
          ∃ again?,
            Row (ts ++ ([.command letter] ++ us))
              (cs.reverse ++ before) again? := by
        cases hOperands with
        | groups hGroups =>
            rcases hGroups.first with ⟨us', g, hGroup⟩
            rcases hGroup.verbOperands with ⟨verb, hVerb, hFill, _⟩
            exact
              hRow.groups hVerb
                (.letter (ofLetter?_of_verb hVerb hFill)) hGroups
        | close hLetter =>
            have hClose :
                ∀ command,
                  Command.ofLetter? letter = some command →
                    command.verb = .close →
                      Row (ts ++ ([.command letter] ++ []))
                        (⟨command.relative, .close⟩ :: before)
                        command.repeated? := by
              intro command hCommand hVerb
              exact
                hRow.clause (.letter hCommand) (hVerb ▸ .close)
            rcases hLetter with rfl | rfl
            · exact ⟨_, hClose ⟨.close, false⟩ rfl rfl⟩
            · exact ⟨_, hClose ⟨.close, true⟩ rfl rfl⟩
        | fill n =>
            have hCommand :
                Command.ofLetter? 'F' = some ⟨.fill, false⟩ := rfl
            have hFill := hRow.clause (.letter hCommand) (.fill n)
            exact ⟨_, hFill⟩
      rcases hCommand with ⟨again', hCommand⟩
      rcases ih hCommand with ⟨again'', hRest⟩
      refine ⟨again'', ?_⟩
      simpa only [List.append_assoc, List.reverse_append,
        List.cons_append, List.nil_append] using hRest

omit [Scalar α] in
/- One more group of operands goes after some. -/
theorem Groups.snoc
    {letter : Char}
    {relative : Bool}
    {ts us : List (Token α)}
    {cs : List (Clause α)}
    {g : Group α}
    (hGroups : Groups letter relative ts cs)
    (hGroup : Operands (furtherLetter letter) us g) :
    Groups letter relative (ts ++ us) (cs ++ [⟨relative, g⟩]) := by
  induction hGroups with
  | last relative hFirst => exact .more hFirst (.last relative hGroup)
  | @more letter relative vs ws g' cs hFirst _ ih =>
      have hSame :
          furtherLetter (furtherLetter letter) =
            furtherLetter letter := by
        unfold furtherLetter
        split <;> simp_all
      rw [List.append_assoc]
      exact .more hFirst (ih (by rwa [hSame]))

/- One sentence after another is a sentence. -/
theorem Sentence.append
    {ts us : List (Token α)}
    {cs ds : List (Clause α)}
    (hFirst : Sentence ts cs)
    (hSecond : Sentence us ds) :
    Sentence (ts ++ us) (cs ++ ds) := by
  induction hFirst with
  | nil => exact hSecond
  | command hOperands _ ih =>
      simpa only [List.cons_append, List.append_assoc] using
        Sentence.command hOperands ih

/- A sentence that is one command. -/
theorem Sentence.single
    {letter : Char}
    {ts : List (Token α)}
    {cs : List (Clause α)}
    (hOperands : CommandOperands letter ts cs) :
    Sentence (.command letter :: ts) cs := by
  simpa only [List.append_nil] using
    Sentence.command hOperands .nil

end

/- Only one letter stands for a verb. -/
theorem Verb.ofLetter?_inj
    {letter letter' : Char}
    {verb : Verb}
    (hVerb : Verb.ofLetter? letter = some verb)
    (hVerb' : Verb.ofLetter? letter' = some verb) :
    letter = letter' := by
  unfold Verb.ofLetter? at hVerb hVerb'
  split at hVerb <;> cases hVerb <;>
    split at hVerb' <;> cases hVerb' <;> rfl

/- The verb and the case of a command letter. -/
theorem Command.ofLetter?_eq_some
    {letter : Char}
    {command : Command}
    (hLetter : Command.ofLetter? letter = some command) :
    Verb.ofLetter? letter.toUpper = some command.verb ∧
      command.relative = letter.isLower ∧
        (command.verb = .fill → letter.isLower = false) := by
  unfold Command.ofLetter? at hLetter
  dsimp only at hLetter
  split at hLetter
  · rename_i hVerb
    split at hLetter <;> cases hLetter
    rename_i hUpper
    rw [Bool.not_eq_true] at hUpper
    exact ⟨hVerb, hUpper.symm, fun _ => hUpper⟩
  · rename_i verb hFill hVerb
    cases hLetter
    exact ⟨hVerb, rfl, fun hIs => absurd hIs hFill⟩
  · cases hLetter

/- A letter is its own uppercase or stands 32 places after it. -/
theorem eq_of_toUpper
    {c d : Char}
    (hUpper : c.toUpper = d) :
    c.isLower = false ∧ c = d ∨
      c.isLower = true ∧ c.val = d.val + 32 := by
  unfold Char.toUpper at hUpper
  split at hUpper
  · rename_i hLower
    have hLower' : c.isLower = true :=
      Bool.and_eq_true_iff.mpr
        ⟨decide_eq_true hLower.1, decide_eq_true hLower.2⟩
    refine .inr ⟨hLower', ?_⟩
    rw [← hUpper]
    change c.val = c.val + ('A'.val - 'a'.val) + 32
    rw [UInt32.add_assoc,
      show ('A'.val - 'a'.val) + 32 = 0 from rfl, UInt32.add_zero]
  · rename_i hLower
    refine .inl ⟨Bool.eq_false_iff.mpr fun hIs => hLower ?_, hUpper⟩
    rcases Bool.and_eq_true_iff.mp hIs with ⟨hLow, hHigh⟩
    exact ⟨of_decide_eq_true hLow, of_decide_eq_true hHigh⟩

/-
  A sentence and the command that its last groups of operands
  may go on with.
-/
inductive Continues
    [Scalar α] :
    List (Token α) → List (Clause α) → Option Command → Prop
| ended
    {ts : List (Token α)}
    {cs : List (Clause α)}
    (hSentence : Sentence ts cs) :
    Continues ts cs none
| groups
    {ts us : List (Token α)}
    {cs ds : List (Clause α)}
    {letter : Char}
    {verb : Verb}
    (hSentence : Sentence ts cs)
    (hGroups : Groups letter.toUpper letter.isLower us ds)
    (hVerb :
      Verb.ofLetter? (furtherLetter letter.toUpper) = some verb) :
    Continues (ts ++ .command letter :: us) (cs ++ ds)
      (some ⟨verb, letter.isLower⟩)

section

variable [Scalar α]

/- It is a sentence as it stands. -/
theorem Continues.sentence
    {ts : List (Token α)}
    {cs : List (Clause α)}
    {again? : Option Command}
    (hContinues : Continues ts cs again?) :
    Sentence ts cs := by
  cases hContinues with
  | ended hSentence => exact hSentence
  | groups hSentence hGroups =>
      exact hSentence.append (.single (.groups hGroups))

/- A letter and its operands go on a sentence. -/
theorem Sentence.continues
    {ts us : List (Token α)}
    {cs : List (Clause α)}
    {c : Char}
    {command : Command}
    {g : Group α}
    (hSentence : Sentence ts cs)
    (hLetter : Command.ofLetter? c = some command)
    (hOperands : VerbOperands command.verb us g) :
    Continues (ts ++ .command c :: us) (cs ++ [⟨command.relative, g⟩])
      command.repeated? := by
  rcases command with ⟨verb, relative⟩
  rcases Command.ofLetter?_eq_some hLetter with ⟨hVerb, rfl, hFill⟩
  cases hOperands with
  | @groups letter _ _ _ hVerb' hGroup =>
      cases Verb.ofLetter?_inj hVerb hVerb'
      rcases hGroup.verbOperands with
        ⟨verb', hSame, _, _, further, hFurther, hRepeated⟩
      cases hVerb'.symm.trans hSame
      rw [hRepeated]
      exact .groups hSentence (.last _ hGroup) hFurther
  | close =>
      have hZ : c.toUpper = 'Z' := Verb.ofLetter?_inj hVerb rfl
      have hCase : c = 'Z' ∨ c = 'z' := by
        rcases eq_of_toUpper hZ with ⟨_, hIs⟩ | ⟨_, hIs⟩
        · exact .inl hIs
        · exact .inr (Char.ext hIs)
      exact .ended (hSentence.append (.single (.close hCase)))
  | fill n =>
      have hF : c.toUpper = 'F' := Verb.ofLetter?_inj hVerb rfl
      have hUpper : c.isLower = false := hFill rfl
      have hIs : c = 'F' := by
        rcases eq_of_toUpper hF with ⟨_, hIs⟩ | ⟨hLower, _⟩
        · exact hIs
        · rw [hUpper] at hLower
          cases hLower
      subst hIs
      exact .ended (hSentence.append (.single (.fill n)))

/- A further group of operands goes on a sentence. -/
theorem Continues.further
    {ts us : List (Token α)}
    {cs : List (Clause α)}
    {command : Command}
    {g : Group α}
    (hContinues : Continues ts cs (some command))
    (hRepeated : command.repeated? = some command)
    (hOperands : VerbOperands command.verb us g) :
    Continues (ts ++ us) (cs ++ [⟨command.relative, g⟩])
      (some command) := by
  cases hContinues with
  | groups hSentence hGroups hVerb =>
      cases hOperands with
      | close => cases hRepeated
      | fill n => cases hRepeated
      | groups hVerb' hGroup =>
          cases Verb.ofLetter?_inj hVerb hVerb'
          rw [List.append_assoc, List.append_assoc]
          exact .groups hSentence (hGroups.snoc hGroup) hVerb

/- A row of clauses is a sentence. -/
theorem Row.continues
    {ts : List (Token α)}
    {before : List (Clause α)}
    {again? : Option Command}
    (hRow : Row ts before again?) :
    Continues ts before.reverse again? := by
  induction hRow with
  | nil => exact .ended .nil
  | @clause ts lead us before again? command g hRow hLead hOperands ih =>
      rw [List.reverse_cons]
      cases hLead with
      | letter hLetter => exact ih.sentence.continues hLetter hOperands
      | again =>
          rw [hRow.repeated.1]
          exact ih.further hRow.repeated.1 hOperands

/- Sentences are the rows of clauses. -/
theorem sentence_iff_row
    {ts : List (Token α)}
    {cs : List (Clause α)} :
    Sentence ts cs ↔ ∃ again?, Row ts cs.reverse again? := by
  constructor
  · intro hSentence
    rcases Row.nil.sentence hSentence with ⟨again?, hRow⟩
    exact ⟨again?, by simpa using hRow⟩
  · rintro ⟨again?, hRow⟩
    simpa using hRow.continues.sentence

end

end FixedPage.PathData
