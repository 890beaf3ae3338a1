import FixedPage.Proofs.Path.Trace
import Mathlib.Tactic.LinearCombination

/-
  This file compares path data with the same data in which every
  arc is a line to the same point. An arc is not drawn and leaves
  the current point where it is, so a clause after it is drawn
  elsewhere if it reads the current point while that is another
  one. Nothing else comes out differently, but for the lines.

  Main declarations:
    * `Clause.straightened`
    * `exists_straightened`
    * `straightCalls`
    * `Undisturbed`
    * `trace_straightened`
-/

namespace FixedPage.PathData

variable {α : Type}

------------------------------------------------------------
-- Lines in place of arcs
------------------------------------------------------------

/- The group is the operands of an arc. -/
def Group.isArc : Group α → Bool
| .arc _ => true
| _ => false

/- A line to the end of an arc; other groups stay. -/
def Group.straightened : Group α → Group α
| .arc target => .line target
| group => group

/- A clause with a line in place of an arc, relative as it is. -/
def Clause.straightened
    (c : Clause α) : Clause α :=
  { c with group := c.group.straightened }

/- Other clauses than arcs stay. -/
theorem Clause.straightened_eq
    {c : Clause α}
    (hArc : c.group.isArc = false) :
    c.straightened = c := by
  rcases c with ⟨relative, group⟩
  cases group <;> first | rfl | cases hArc

------------------------------------------------------------
-- Sentences
------------------------------------------------------------

/- The letter of lines in place of that of arcs, in uppercase. -/
def straightLetter
    (letter : Char) : Char :=
  if letter = 'A' then 'L' else letter

/- Further groups of lines are lines. -/
theorem furtherLetter_straightLetter
    (letter : Char) :
    furtherLetter (straightLetter letter) =
      straightLetter (furtherLetter letter) := by
  by_cases hArc : letter = 'A'
  · rw [hArc]
    decide
  · by_cases hMove : letter = 'M'
    · rw [hMove]
      decide
    · simp only [straightLetter, furtherLetter, if_neg hArc,
        if_neg hMove]

/- The operands of an arc end in those of a line. -/
theorem Operands.straightened
    {letter : Char}
    {ts : List (Token α)}
    {g : Group α}
    (hOperands : Operands letter ts g) :
    ∃ us,
      us ⊆ ts ∧ Operands (straightLetter letter) us g.straightened := by
  cases hOperands with
  | move p => exact ⟨_, List.Subset.refl _, .move p⟩
  | line p => exact ⟨_, List.Subset.refl _, .line p⟩
  | horizontal x => exact ⟨_, List.Subset.refl _, .horizontal x⟩
  | vertical y => exact ⟨_, List.Subset.refl _, .vertical y⟩
  | cubic p₁ p₂ p₃ => exact ⟨_, List.Subset.refl _, .cubic p₁ p₂ p₃⟩
  | quadratic p₁ p₂ => exact ⟨_, List.Subset.refl _, .quadratic p₁ p₂⟩
  | smooth p₂ p₃ => exact ⟨_, List.Subset.refl _, .smooth p₂ p₃⟩
  | arc size target rotation isLarge sweep =>
      exact
        ⟨pointTokens target, List.subset_append_right _ _, .line target⟩

/- So do the groups of arcs. -/
theorem Groups.straightened
    {letter : Char}
    {relative : Bool}
    {ts : List (Token α)}
    {cs : List (Clause α)}
    (hGroups : Groups letter relative ts cs) :
    ∃ us,
      us ⊆ ts ∧
        Groups (straightLetter letter) relative us
          (cs.map Clause.straightened) := by
  induction hGroups with
  | last relative hGroup =>
      rcases hGroup.straightened with ⟨us, hSubset, hLine⟩
      exact ⟨us, hSubset, .last relative hLine⟩
  | more hGroup _ ih =>
      rcases hGroup.straightened with ⟨us, hSubset, hLine⟩
      rcases ih with ⟨vs, hRest, hMore⟩
      rw [← furtherLetter_straightLetter] at hMore
      refine ⟨us ++ vs, ?_, .more hLine hMore⟩
      exact
        List.append_subset.mpr
          ⟨List.Subset.trans hSubset (List.subset_append_left _ _),
            List.Subset.trans hRest (List.subset_append_right _ _)⟩

section

variable [Scalar α]

/- The operands of a command, and the letter that they take. -/
theorem CommandOperands.straightened
    {letter : Char}
    {ts : List (Token α)}
    {cs : List (Clause α)}
    (hOperands : CommandOperands letter ts cs) :
    ∃ letter' us,
      (letter' = letter ∨ letter'.isAlpha = true) ∧ us ⊆ ts ∧
        CommandOperands letter' us (cs.map Clause.straightened) := by
  cases hOperands with
  | close hLetter =>
      exact ⟨letter, [], .inl rfl, List.Subset.refl _, .close hLetter⟩
  | fill n =>
      exact ⟨'F', [.number n], .inl rfl, List.Subset.refl _, .fill n⟩
  | groups hGroups =>
      rcases hGroups.straightened with ⟨us, hSubset, hStraight⟩
      by_cases hArc : letter.toUpper = 'A'
      · rw [hArc] at hStraight
        cases hLower : letter.isLower with
        | false =>
            rw [hLower] at hStraight
            exact
              ⟨'L', us, .inr (by decide), hSubset, .groups hStraight⟩
        | true =>
            rw [hLower] at hStraight
            exact
              ⟨'l', us, .inr (by decide), hSubset, .groups hStraight⟩
      · rw [straightLetter, if_neg hArc] at hStraight
        exact ⟨letter, us, .inl rfl, hSubset, .groups hStraight⟩

/- A written sentence is one with lines in place of its arcs. -/
theorem Sentence.straightened
    {ts : List (Token α)}
    {cs : List (Clause α)}
    (hSentence : Sentence ts cs)
    (hWritten : ∀ t ∈ ts, t.Written) :
    ∃ us,
      (∀ t ∈ us, t.Written) ∧
        Sentence us (cs.map Clause.straightened) := by
  induction hSentence with
  | nil => exact ⟨[], nofun, .nil⟩
  | @command letter ts rest cs ds hOperands _ ih =>
      rw [List.forall_mem_cons, List.forall_mem_append] at hWritten
      rcases hWritten with ⟨hLetter, hFirst, hLater⟩
      rcases hOperands.straightened with
        ⟨letter', us, hName, hSubset, hStraight⟩
      rcases ih hLater with ⟨vs, hMore, hRest⟩
      rw [List.map_append]
      refine ⟨_, ?_, .command hStraight hRest⟩
      rw [List.forall_mem_cons, List.forall_mem_append]
      refine ⟨?_, fun t hMem => hFirst t (hSubset hMem), hMore⟩
      rcases hName with rfl | hAlpha
      · exact hLetter
      · exact hAlpha

/- Data can be written with lines in place of its arcs. -/
theorem exists_straightened
    {data : String}
    {cs : List (Clause α)}
    (hSpells : Spells data cs) :
    ∃ data', Spells data' (cs.map Clause.straightened) := by
  rcases hSpells with ⟨ts, hLexes, hSentence⟩
  rcases hSentence.straightened hLexes.written with
    ⟨us, hWritten, hStraight⟩
  rcases exists_lexes hWritten with ⟨text, hText⟩
  refine ⟨String.ofList text, us, ?_, hStraight⟩
  rwa [String.toList_ofList]

------------------------------------------------------------
-- Current points
------------------------------------------------------------

/-
  Drawing a group depends on the horizontal coordinate of the
  current point.
-/
def Group.readsX
    (relative : Bool) : Group α → Bool
| .vertical _ | .quadratic _ _ | .smooth _ _ => true
| .arc _ | .close | .fill _ => false
| _ => relative

/- It depends on the vertical coordinate. -/
def Group.readsY
    (relative : Bool) : Group α → Bool
| .horizontal _ | .quadratic _ _ | .smooth _ _ => true
| .arc _ | .close | .fill _ => false
| _ => relative

/- Two current points are the same for drawing a clause. -/
def Clause.Agrees
    (c : Clause α)
    (p q : Point α) : Prop :=
  (c.group.readsX c.relative = true → p.x = q.x) ∧
    (c.group.readsY c.relative = true → p.y = q.y)

omit [Scalar α] in
/- All points are the same for a clause that reads nothing. -/
theorem Clause.agrees_of_unread
    {c : Clause α}
    (hX : c.group.readsX c.relative = false)
    (hY : c.group.readsY c.relative = false)
    (p q : Point α) :
    c.Agrees p q := by
  unfold Agrees
  rw [hX, hY]
  exact
    ⟨fun hRead => absurd hRead Bool.false_ne_true,
      fun hRead => absurd hRead Bool.false_ne_true⟩

/-
  What straightened clauses draw, the last one first, with or
  without the lines in place of arcs.
-/
def straightCalls
    (lines : Bool) : List (Clause α) → List (PathStep α)
| [] => []
| c :: before =>
    straightCalls lines before
      ++ if c.group.isArc && !lines then []
        else callsOf (before.map Clause.straightened) c.straightened

/-
  No clause, the last one first, reads another current point than
  there is with lines in place of arcs.
-/
def Undisturbed : List (Clause α) → Prop
| [] => True
| c :: before =>
    Undisturbed before ∧
      c.Agrees (currentPoint before)
        (currentPoint (before.map Clause.straightened))

/- With its lines this is what the straightened clauses draw. -/
theorem straightCalls_true
    (before : List (Clause α)) :
    straightCalls true before =
      callsUpTo (before.map Clause.straightened) := by
  induction before with
  | nil => rfl
  | cons c before ih =>
      rw [straightCalls, ih, Bool.not_true, Bool.and_false,
        if_neg Bool.false_ne_true]
      rfl

section

variable {before before' : List (Clause α)} {c : Clause α}

/- A clause that reads both coordinates reads the same point. -/
theorem Clause.Agrees.current
    (hAgrees : c.Agrees (currentPoint before) (currentPoint before'))
    (hX : c.group.readsX c.relative = true)
    (hY : c.group.readsY c.relative = true) :
    currentPoint before = currentPoint before' :=
  (Point.mk.injEq _ _ _ _).mpr ⟨hAgrees.1 hX, hAgrees.2 hY⟩

/- A clause that reads them when it is relative has its points. -/
theorem Clause.Agrees.place
    (hAgrees : c.Agrees (currentPoint before) (currentPoint before'))
    (hReads :
      c.relative = true →
        c.group.readsX c.relative = true ∧
          c.group.readsY c.relative = true)
    (p : Point α) :
    placeAfter before c.relative p = placeAfter before' c.relative p := by
  unfold placeAfter
  split
  · rename_i hRelative
    rw [hAgrees.current (hReads hRelative).1 (hReads hRelative).2]
  · rfl

/- Clauses that read the same draw the same. -/
theorem callsOf_congr
    (hReach : reach before = reach before')
    (hAgrees : c.Agrees (currentPoint before) (currentPoint before')) :
    callsOf before c = callsOf before' c := by
  rcases c with ⟨relative, group⟩
  cases group with
  | arc target => rfl
  | close => rfl
  | fill rule => rfl
  | move p =>
      change
        [PathStep.draw (.moveTo (placeAfter before relative p))] =
          [.draw (.moveTo (placeAfter before' relative p))]
      rw [hAgrees.place (fun hRead => ⟨hRead, hRead⟩) p]
  | line p =>
      change
        [PathStep.draw (.lineTo (placeAfter before relative p))] =
          [.draw (.lineTo (placeAfter before' relative p))]
      rw [hAgrees.place (fun hRead => ⟨hRead, hRead⟩) p]
  | cubic p₁ p₂ p₃ =>
      have hPlace := hAgrees.place fun hRead => ⟨hRead, hRead⟩
      change
        [PathStep.draw
            (.curveTo (placeAfter before relative p₁)
              (placeAfter before relative p₂)
              (placeAfter before relative p₃))] =
          [.draw
            (.curveTo (placeAfter before' relative p₁)
              (placeAfter before' relative p₂)
              (placeAfter before' relative p₃))]
      rw [hPlace p₁, hPlace p₂, hPlace p₃]
  | horizontal x =>
      cases relative with
      | false =>
          have hY : (currentPoint before).y = (currentPoint before').y :=
            hAgrees.2 rfl
          simp only [callsOf, currentPoint, hY, Bool.false_eq_true,
            if_false]
      | true =>
          simp only [callsOf, currentPoint, hAgrees.current rfl rfl]
  | vertical y =>
      cases relative with
      | false =>
          have hX : (currentPoint before).x = (currentPoint before').x :=
            hAgrees.1 rfl
          simp only [callsOf, currentPoint, hX, Bool.false_eq_true,
            if_false]
      | true =>
          simp only [callsOf, currentPoint, hAgrees.current rfl rfl]
  | quadratic q p =>
      simp only [callsOf, currentPoint, placeAfter,
        hAgrees.current rfl rfl]
  | smooth p₂ p₃ =>
      simp only [callsOf, currentPoint, placeAfter,
        hAgrees.current rfl rfl, hReach]

/- A curve that has read the same goes on the same way. -/
theorem reach_congr
    (hAgrees : c.Agrees (currentPoint before) (currentPoint before')) :
    reach (c :: before) = reach (c.straightened :: before') := by
  rcases c with ⟨relative, group⟩
  cases group with
  | cubic p₁ p₂ p₃ =>
      have hPlace := hAgrees.place fun hRead => ⟨hRead, hRead⟩
      change
        (placeAfter before relative p₃).sub
            (placeAfter before relative p₂) =
          (placeAfter before' relative p₃).sub
            (placeAfter before' relative p₂)
      rw [hPlace p₃, hPlace p₂]
  | smooth p₂ p₃ =>
      have hPlace := hAgrees.place fun _ => ⟨rfl, rfl⟩
      change
        (placeAfter before relative p₃).sub
            (placeAfter before relative p₂) =
          (placeAfter before' relative p₃).sub
            (placeAfter before' relative p₂)
      rw [hPlace p₃, hPlace p₂]
  | _ => rfl

end

/- So do the curves of clauses that are not disturbed. -/
theorem Undisturbed.reach_eq
    {before : List (Clause α)}
    (hUndisturbed : Undisturbed before) :
    reach before = reach (before.map Clause.straightened) := by
  cases before with
  | nil => rfl
  | cons c before => exact reach_congr hUndisturbed.2

/- An arc draws nothing. -/
theorem callsOf_arc
    {c : Clause α}
    (hArc : c.group.isArc = true)
    (before : List (Clause α)) :
    callsOf before c = [] := by
  rcases c with ⟨relative, group⟩
  cases group with
  | arc target => rfl
  | _ => cases hArc

/- Clauses that are not disturbed draw the same but for the lines. -/
theorem Undisturbed.callsUpTo_eq
    {before : List (Clause α)}
    (hUndisturbed : Undisturbed before) :
    callsUpTo before = straightCalls false before := by
  induction before with
  | nil => rfl
  | cons c before ih =>
      rw [callsUpTo, straightCalls, ih hUndisturbed.1,
        Bool.not_false, Bool.and_true]
      cases hArc : c.group.isArc with
      | true => rw [callsOf_arc hArc, if_pos rfl]
      | false =>
          rw [if_neg Bool.false_ne_true, Clause.straightened_eq hArc,
            callsOf_congr hUndisturbed.1.reach_eq hUndisturbed.2]

------------------------------------------------------------
-- Exact arithmetic
------------------------------------------------------------

section

variable [ExactScalar α]

open ExactScalar

/- A sum tells its first part from the second. -/
theorem scalar_add_right_cancel
    {x y z : α}
    (hSame : x + z = y + z) :
    x = y := by
  have hValue := congrArg value hSame
  rw [value_add, value_add, add_left_inj] at hValue
  exact value_injective _ _ hValue

/- So does a point that has been moved. -/
theorem point_add_right_cancel
    {p q v : Point α}
    (hSame : p.add v = q.add v) :
    p = q := by
  rcases p with ⟨px, py⟩
  rcases q with ⟨qx, qy⟩
  simp only [Point.add, Point.mk.injEq] at hSame ⊢
  exact
    ⟨scalar_add_right_cancel hSame.1,
      scalar_add_right_cancel hSame.2⟩

/- Moving two points leaves the way between them. -/
theorem sub_add_add
    (now p q : Point α) :
    (now.add p).sub (now.add q) = p.sub q := by
  simp only [Point.add, Point.sub, Point.mk.injEq]
  constructor <;>
    · apply value_injective
      simp only [value_sub, value_add]
      ring

/- Nor does it matter where a curve is that goes on. -/
theorem sub_placeAfter
    (before : List (Clause α))
    (relative : Bool)
    (p q : Point α) :
    (placeAfter before relative p).sub (placeAfter before relative q) =
      p.sub q := by
  cases relative with
  | false => rfl
  | true => exact sub_add_add _ p q

/- Arcs have no part in how a curve goes on. -/
theorem reach_straightened
    (before : List (Clause α)) :
    reach before = reach (before.map Clause.straightened) := by
  cases before with
  | nil => rfl
  | cons c before =>
      rcases c with ⟨relative, group⟩
      cases group with
      | cubic p₁ p₂ p₃ =>
          exact
            (sub_placeAfter before relative p₃ p₂).trans
              (sub_placeAfter _ relative p₃ p₂).symm
      | smooth p₂ p₃ =>
          exact
            (sub_placeAfter before relative p₃ p₂).trans
              (sub_placeAfter _ relative p₃ p₂).symm
      | _ => rfl

/- A way of two thirds tells where it ends. -/
theorem twoThirds_cancel
    {q p p' : Point α}
    (hSame : Pen.twoThirds q p = Pen.twoThirds q p') :
    p = p' := by
  have hThird :
      ∀ {a x y : α},
        a + 1 / Nat.cast 3 * x = a + 1 / Nat.cast 3 * y → x = y := by
    intro a x y hSum
    have hValue := congrArg value hSum
    simp only [value_add, value_mul, value_div, value_one,
      value_natCast] at hValue
    apply value_injective
    push_cast at hValue
    linear_combination 3 * hValue
  rcases p with ⟨px, py⟩
  rcases p' with ⟨qx, qy⟩
  simp only [Pen.twoThirds, Point.mk.injEq] at hSame ⊢
  exact ⟨hThird hSame.1, hThird hSame.2⟩

variable {before before' : List (Clause α)} {relative : Bool}

/- A relative point that comes out the same tells what was read. -/
theorem agrees_of_placeAfter
    {g : Group α}
    (hX : g.readsX relative = true → relative = true)
    (hY : g.readsY relative = true → relative = true)
    {p : Point α}
    (hSame :
      placeAfter before relative p = placeAfter before' relative p) :
    Clause.Agrees ⟨relative, g⟩ (currentPoint before)
      (currentPoint before') := by
  have hCurrent :
      relative = true → currentPoint before = currentPoint before' := by
    rintro rfl
    exact point_add_right_cancel hSame
  exact
    ⟨fun hRead => congrArg Point.x (hCurrent (hX hRead)),
      fun hRead => congrArg Point.y (hCurrent (hY hRead))⟩

/- Clauses that draw the same have read the same. -/
theorem agrees_of_callsOf
    {c : Clause α}
    (hReach : reach before = reach before')
    (hSame : callsOf before c = callsOf before' c) :
    c.Agrees (currentPoint before) (currentPoint before') := by
  rcases c with ⟨relative, group⟩
  cases group with
  | arc target => exact Clause.agrees_of_unread rfl rfl _ _
  | close => exact Clause.agrees_of_unread rfl rfl _ _
  | fill rule => exact Clause.agrees_of_unread rfl rfl _ _
  | move p =>
      simp only [callsOf, currentPoint, List.cons.injEq, and_true,
        PathStep.draw.injEq, Segment.moveTo.injEq] at hSame
      exact agrees_of_placeAfter id id hSame
  | line p =>
      simp only [callsOf, currentPoint, List.cons.injEq, and_true,
        PathStep.draw.injEq, Segment.lineTo.injEq] at hSame
      exact agrees_of_placeAfter id id hSame
  | cubic p₁ p₂ p₃ =>
      simp only [callsOf, currentPoint, List.cons.injEq, and_true,
        PathStep.draw.injEq, Segment.curveTo.injEq] at hSame
      exact agrees_of_placeAfter id id hSame.1
  | horizontal x =>
      simp only [callsOf, currentPoint, List.cons.injEq, and_true,
        PathStep.draw.injEq, Segment.lineTo.injEq,
        Point.mk.injEq] at hSame
      refine ⟨?_, fun _ => hSame.2⟩
      rintro rfl
      exact scalar_add_right_cancel hSame.1
  | vertical y =>
      simp only [callsOf, currentPoint, List.cons.injEq, and_true,
        PathStep.draw.injEq, Segment.lineTo.injEq,
        Point.mk.injEq] at hSame
      refine ⟨fun _ => hSame.1, ?_⟩
      rintro rfl
      exact scalar_add_right_cancel hSame.2
  | quadratic q p =>
      simp only [callsOf, currentPoint, List.cons.injEq, and_true,
        PathStep.draw.injEq, Segment.curveTo.injEq] at hSame
      have hCurrent : currentPoint before = currentPoint before' := by
        cases relative with
        | false => exact twoThirds_cancel hSame.1
        | true => exact point_add_right_cancel hSame.2.2
      exact
        ⟨fun _ => congrArg Point.x hCurrent,
          fun _ => congrArg Point.y hCurrent⟩
  | smooth p₂ p₃ =>
      simp only [callsOf, currentPoint, List.cons.injEq, and_true,
        PathStep.draw.injEq, Segment.curveTo.injEq, hReach] at hSame
      have hCurrent := point_add_right_cancel hSame.1
      exact
        ⟨fun _ => congrArg Point.x hCurrent,
          fun _ => congrArg Point.y hCurrent⟩

omit [ExactScalar α] in
/- How much a clause draws does not depend on where it is. -/
theorem length_callsOf
    (before before' : List (Clause α))
    (c : Clause α) :
    (callsOf before c).length = (callsOf before' c).length := by
  rcases c with ⟨relative, group⟩
  cases group <;> rfl

/- Clauses that draw the same but for the lines are undisturbed. -/
theorem undisturbed_of_callsUpTo
    {before : List (Clause α)}
    (hSame : callsUpTo before = straightCalls false before) :
    Undisturbed before := by
  induction before with
  | nil => trivial
  | cons c before ih =>
      rw [callsUpTo, straightCalls, Bool.not_false,
        Bool.and_true] at hSame
      cases hArc : c.group.isArc with
      | true =>
          rw [callsOf_arc hArc, hArc, if_pos rfl, List.append_nil,
            List.append_nil] at hSame
          rcases c with ⟨relative, group⟩
          cases group with
          | arc target =>
              exact ⟨ih hSame, Clause.agrees_of_unread rfl rfl _ _⟩
          | _ => cases hArc
      | false =>
          rw [hArc, if_neg Bool.false_ne_true,
            Clause.straightened_eq hArc] at hSame
          rcases List.append_inj' hSame (length_callsOf _ _ c) with
            ⟨hBefore, hLast⟩
          exact
            ⟨ih hBefore,
              agrees_of_callsOf (reach_straightened before) hLast⟩

end

------------------------------------------------------------
-- Evaluation
------------------------------------------------------------

/-
  Data that is accepted has clauses, and it can be written with
  lines in place of its arcs. However this is written, it is
  accepted and draws what the straightened clauses draw. But for
  the lines of its arcs this is what the data itself draws if no
  clause reads another current point, and only then if nothing is
  rounded.
-/
theorem trace_straightened
    (data : String) :
    ((trace (α := α) data).fault? = none →
      ∃ cs : List (Clause α), Spells data cs) ∧
      ∀ cs : List (Clause α),
        Spells data cs →
          (∃ data', Spells data' (cs.map Clause.straightened)) ∧
            ∀ data',
              Spells data' (cs.map Clause.straightened) →
                trace data' = ⟨straightCalls true cs.reverse, none⟩ ∧
                  (Undisturbed cs.reverse →
                    trace data =
                      ⟨straightCalls false cs.reverse, none⟩) ∧
                  ∀ _ : ExactScalar α,
                    trace data =
                        ⟨straightCalls false cs.reverse, none⟩ →
                      Undisturbed cs.reverse := by
  constructor
  · intro hAccepted
    have hCases := trace_cases (α := α) data
    rw [hAccepted] at hCases
    exact hCases
  · intro cs hSpells
    have hData : trace data = ⟨callsUpTo cs.reverse, none⟩ :=
      trace_of_spells hSpells
    refine ⟨exists_straightened hSpells, fun data' hStraight => ?_⟩
    refine ⟨?_, fun hUndisturbed => ?_, fun _ hSame => ?_⟩
    · rw [trace_of_spells hStraight, calls, straightCalls_true,
        List.map_reverse]
    · rw [hData, hUndisturbed.callsUpTo_eq]
    · rw [hData, Trace.mk.injEq] at hSame
      exact undisturbed_of_callsUpTo hSame.1

end

------------------------------------------------------------
-- An arc before a relative line
------------------------------------------------------------

namespace LineAfterArc

/- An arc, and a line relative to where it should end. -/
def data : String :=
  "M 0,0 A 5,5 0 0 1 10,0 l 0,10"

/- The tokens of the data. -/
def tokens : List (Token ℚ) :=
  .command 'M' :: (pointTokens ⟨0, 0⟩
    ++ .command 'A' :: (pointTokens ⟨5, 5⟩
        ++ [.number 0, .number 0, .number 1]
        ++ pointTokens ⟨10, 0⟩
      ++ .command 'l' :: (pointTokens ⟨0, 10⟩ ++ [])))

/- The clauses of the data. -/
def clauses : List (Clause ℚ) :=
  [⟨false, .move ⟨0, 0⟩⟩, ⟨false, .arc ⟨10, 0⟩⟩,
    ⟨true, .line ⟨0, 10⟩⟩]

end LineAfterArc

/- The line starts where the arc does, not where it should end. -/
theorem LineAfterArc.misplaced :
    trace data =
        ⟨[.draw (.moveTo (⟨0, 0⟩ : Point ℚ)),
          .draw (.lineTo ⟨0, 10⟩)], none⟩ ∧
      straightCalls false clauses.reverse =
        [.draw (.moveTo ⟨0, 0⟩), .draw (.lineTo ⟨10, 10⟩)] ∧
      trace data ≠ ⟨straightCalls false clauses.reverse, none⟩ := by
  have hTokens :
      (scan (α := ℚ) 0 data.toList).tokens.map Placed.token =
        tokens := by
    decide +kernel
  have hEnd :
      (scan (α := ℚ) 0 data.toList).ending = .complete 29 := by
    decide +kernel
  have hValid : ∀ t ∈ tokens, ∀ c, t ≠ .stray c := by
    simp [tokens, pointTokens]
  have hMove :
      CommandOperands 'M' (pointTokens ⟨(0 : ℚ), 0⟩)
        [⟨false, .move ⟨0, 0⟩⟩] :=
    .groups (.last false (.move _))
  have hArc :
      CommandOperands 'A'
        (pointTokens ⟨(5 : ℚ), 5⟩
          ++ [.number 0, .number 0, .number 1] ++ pointTokens ⟨10, 0⟩)
        [⟨false, .arc ⟨10, 0⟩⟩] :=
    .groups (.last false (.arc _ _ _ _ _))
  have hLine :
      CommandOperands 'l' (pointTokens ⟨(0 : ℚ), 10⟩)
        [⟨true, .line ⟨0, 10⟩⟩] :=
    .groups (.last true (.line _))
  have hSentence : Sentence tokens clauses :=
    .command hMove (.command hArc (.command hLine .nil))
  have hSpells : Spells data clauses := by
    rcases
      scan_shows (α := ℚ) 0 data.toList _ [] (List.append_nil _).symm
        (fun p hMem =>
          hValid _ (hTokens ▸ List.mem_map_of_mem hMem)) with
      ⟨before, after, -, hLexes, -, hAll⟩
    rw [hTokens, hAll rfl ⟨29, hEnd⟩] at hLexes
    exact ⟨tokens, hLexes, hSentence⟩
  refine ⟨by decide +kernel, by decide +kernel, fun hSame => ?_⟩
  rcases (trace_straightened data).2 clauses hSpells with
    ⟨⟨data', hStraight⟩, hStraightened⟩
  have hUndisturbed :=
    (hStraightened data' hStraight).2.2 inferInstance hSame
  have hRead : (0 : ℚ) = 10 := hUndisturbed.2.1 rfl
  exact absurd hRead (by decide)

end FixedPage.PathData
