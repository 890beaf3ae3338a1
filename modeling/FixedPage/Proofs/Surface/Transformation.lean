import FixedPage.Proofs.Geometry.Matrix
import FixedPage.Proofs.Surface.Brackets

/-
  This file says what the current transformation of a surface is
  after any calls that turn it and open and close brackets, as
  long as each bracket is closed before the one around it: the
  product of the turns that were made in the brackets still open.
  So a group is laid by the transformation under which it was
  opened, whatever was turned inside of it.

  Main declarations:
    * `Matrix.product`
    * `Surface.Call`
    * `Surface.Call.Nested`
    * `Surface.Call.OpenedAfter`
    * `Surface.Call.Nested.ctm`
    * `Surface.Call.Nested.exists_enter`
    * `Surface.Call.OpenedAfter.popGroup`
    * `Surface.transformations_compose`
-/

namespace FixedPage

variable {α : Type} [Scalar α]

------------------------------------------------------------
-- Products
------------------------------------------------------------

namespace Matrix

/- Applies some transformations, the head of the list first. -/
def product
    (ms : List (Matrix α)) : Matrix α :=
  ms.foldr mul identity

/- Some transformations before another one. -/
theorem foldr_mul
    {K : Type}
    [Field K]
    {value : α → K}
    (hExact : Scalar.Exact value)
    (ms : List (Matrix α))
    (c : Matrix α) :
    ms.foldr mul c = (product ms).mul c := by
  unfold product
  induction ms with
  | nil => exact (identity_mul hExact c).symm
  | cons m ms ih =>
      rw [List.foldr_cons, List.foldr_cons, ih,
        Matrix.mul_assoc hExact]

end Matrix

namespace Surface

------------------------------------------------------------
-- Calls
------------------------------------------------------------

/-
  What decides about the current transformation: a turn, and the
  begin and the end of a save or of a group.
-/
inductive Call (α : Type) where
  | turn
      (m : Matrix α)
  | enter
      (b : Bracket)
  | leave
      (b : Bracket)
deriving DecidableEq, Repr

namespace Call

/- Makes a call. The layer of a group that is left is dropped. -/
def perform : Call α → Surface α → Surface α
| .turn m, s => s.transform m
| .enter b, s => b.enter s
| .leave b, s => b.leave s

/- Makes some calls in order. -/
def performAll
    (calls : List (Call α))
    (s : Surface α) : Surface α :=
  calls.foldl (fun t call => call.perform t) s

theorem performAll_append
    (calls more : List (Call α))
    (s : Surface α) :
    performAll (calls ++ more) s =
      performAll more (performAll calls s) :=
  List.foldl_append

/-
  `Nested bs calls ms` says that the calls close only what they
  opened, in the opposite order. They leave the brackets `bs`
  open, the last one first, and `ms` are the turns that they
  made outside of all the brackets that they closed, the last
  one first.
-/
inductive Nested :
    List Bracket → List (Call α) → List (Matrix α) → Prop
| nil :
    Nested [] [] []
| turn
    {bs : List Bracket}
    {calls : List (Call α)}
    {ms : List (Matrix α)}
    (hNested : Nested bs calls ms)
    (m : Matrix α) :
    Nested bs (calls ++ [.turn m]) (m :: ms)
| enter
    {bs : List Bracket}
    {calls : List (Call α)}
    {ms : List (Matrix α)}
    (hNested : Nested bs calls ms)
    (b : Bracket) :
    Nested (b :: bs) (calls ++ [.enter b]) ms
| closed
    {bs : List Bracket}
    {calls content : List (Call α)}
    {ms turned : List (Matrix α)}
    (hNested : Nested bs calls ms)
    (b : Bracket)
    (hContent : Nested [] content turned) :
    Nested bs (calls ++ (.enter b :: content ++ [.leave b])) ms

/-
  What is closed behind the calls `earlier` is a bracket of this
  kind that was opened behind the calls `outside`. The calls
  between the two close whatever they open.
-/
def OpenedAfter
    (b : Bracket)
    (outside earlier : List (Call α)) : Prop :=
  ∃ content turned,
    earlier = outside ++ .enter b :: content ∧
      Nested [] content turned

omit [Scalar α] in
/-
  A call in one row of calls behind another one is in the first
  row, or in the second and all of the first is earlier.
-/
theorem earlier_or_behind
    {call : Call α}
    {earlier second : List (Call α)}
    (first : List (Call α))
    (hCall : earlier ++ [call] <+: first ++ second) :
    earlier ++ [call] <+: first ∨
      ∃ between,
        earlier = first ++ between ∧
          between ++ [call] <+: second := by
  rcases
    List.prefix_or_prefix_of_prefix hCall
      (List.prefix_append first second) with
    hFirst | ⟨rest, hRest⟩
  · exact .inl hFirst
  · rcases List.eq_nil_or_concat' rest with
      rfl | ⟨between, last, rfl⟩
    · rw [List.append_nil] at hRest
      exact .inl ⟨[], by rw [List.append_nil, hRest]⟩
    · rw [← hRest, List.prefix_append_right_inj] at hCall
      rw [← List.append_assoc] at hRest
      rcases List.append_inj' hRest rfl with ⟨hEarlier, hLast⟩
      rw [hLast] at hCall
      exact .inr ⟨between, hEarlier.symm, hCall⟩

------------------------------------------------------------
-- Runs
------------------------------------------------------------

namespace Nested

variable {bs : List Bracket} {calls : List (Call α)}
variable {ms : List (Matrix α)}

/- The brackets that are left open are those of the surface. -/
theorem inside
    (hNested : Nested bs calls ms)
    (s : Surface α) :
    s.Inside true bs (performAll calls s) := by
  induction hNested generalizing s with
  | nil => exact .level (.refl true s)
  | turn hNested m ih =>
      rw [performAll_append]
      exact (ih s).turn (.inr rfl) (.transform _ m)
  | enter hNested b ih =>
      rw [performAll_append]
      exact (ih s).enter b
  | closed hNested b hContent ih ihContent =>
      rw [performAll_append, performAll_append]
      exact
        (ih s).draw
          (b.leave_level (ihContent (b.enter _)).level_of_nil)

/- Calls that close whatever they open stay on the level. -/
theorem level
    (hNested : Nested [] calls ms)
    (s : Surface α) :
    Level true s (performAll calls s) :=
  (hNested.inside s).level_of_nil

/-
  The current transformation applies the turns that were made in
  the brackets still open, the last one first.
-/
theorem ctm
    (hNested : Nested bs calls ms)
    (s : Surface α) :
    (performAll calls s).ctm = ms.foldr Matrix.mul s.ctm := by
  induction hNested with
  | nil => rfl
  | turn hNested m ih =>
      rw [performAll_append, List.foldr_cons, ← ih]
      rfl
  | enter hNested b ih =>
      rw [performAll_append, ← ih]
      cases b <;> rfl
  | closed hNested b hContent ih =>
      rw [performAll_append, performAll_append, ← ih]
      exact (b.leave_level (hContent.level (b.enter _))).ctm rfl

omit [Scalar α] in
/- Whatever is closed was opened by one of the calls. -/
theorem exists_enter
    {b : Bracket}
    {earlier : List (Call α)}
    (hNested : Nested bs calls ms)
    (hLeave : earlier ++ [.leave b] <+: calls) :
    ∃ outside, OpenedAfter b outside earlier := by
  induction hNested generalizing earlier with
  | nil => simp at hLeave
  | turn hNested m ih =>
      rcases List.prefix_concat_iff.mp hLeave with hLast | hBefore
      · cases (List.append_inj' hLast rfl).2
      · exact ih hBefore
  | enter hNested b ih =>
      rcases List.prefix_concat_iff.mp hLeave with hLast | hBefore
      · cases (List.append_inj' hLast rfl).2
      · exact ih hBefore
  | @closed _ calls _ _ _ hNested b hContent ih ihContent =>
      -- What is closed lies before the last bracket, is opened and
      -- closed inside of it, or is that bracket.
      rcases earlier_or_behind calls hLeave with
        hBefore | ⟨_, rfl, hBehind⟩
      · exact ih hBefore
      rcases earlier_or_behind [.enter b] hBehind with
        hOpened | ⟨_, rfl, hInner⟩
      · simp [List.prefix_cons_iff, List.append_eq_cons_iff]
          at hOpened
      rcases List.prefix_concat_iff.mp hInner with hLast | hWithin
      · rcases List.append_inj' hLast rfl with ⟨rfl, hSame⟩
        cases hSame
        exact ⟨calls, _, _, rfl, hContent⟩
      · rcases ihContent hWithin with
          ⟨outside, content, turned, rfl, hClosed⟩
        exact
          ⟨calls ++ .enter b :: outside, content, turned, by simp,
            hClosed⟩

end Nested

end Call

------------------------------------------------------------
-- Layers
------------------------------------------------------------

omit [Scalar α] in
/-
  A group is laid by the transformation under which it was
  opened, and under the number that it got then.
-/
theorem Level.popGroup
    {s t : Surface α}
    (hInner : Level true s.pushGroup t) :
    t.popGroup.1 = ⟨.layer (.group s.nextGroup), .none, s.ctm⟩ := by
  have hCtm : t.closeGroup.ctm = s.ctm :=
    (Bracket.leave_level .group hInner).ctm rfl
  have hLayer : t.topLayer = .group s.nextGroup := by
    unfold topLayer
    rw [hInner.groups]
    rfl
  unfold Surface.popGroup
  dsimp only
  rw [hCtm, hLayer]

/- The same for a group that calls opened. -/
theorem Call.OpenedAfter.popGroup
    {outside earlier : List (Call α)}
    (hOpened : OpenedAfter .group outside earlier)
    (s : Surface α) :
    (performAll earlier s).popGroup.1 =
      ⟨.layer (.group (performAll outside s).nextGroup), .none,
        (performAll outside s).ctm⟩ := by
  rcases hOpened with ⟨content, turned, rfl, hContent⟩
  rw [performAll_append]
  exact (hContent.level (performAll outside s).pushGroup).popGroup

/-
  Transformations compose: products may be grouped at will, the
  identity changes nothing, and what does not flatten the plane
  is undone from both sides. After calls that close only what
  they opened, the current transformation is the product of the
  turns in the brackets still open. A group that one of them
  closes was opened by an earlier one, and its layer carries the
  transformation under which it was opened.
-/
theorem transformations_compose
    {K : Type}
    [Field K]
    {value : α → K}
    (hExact : Scalar.Exact value) :
    (∀ l m n : Matrix α, (l.mul m).mul n = l.mul (m.mul n)) ∧
      (∀ m : Matrix α,
        Matrix.identity.mul m = m ∧ m.mul .identity = m) ∧
      (∀ (m n : Matrix α) (p : Point α),
        (m.mul n).apply p = n.apply (m.apply p)) ∧
      (∀ m : Matrix α,
        (m.inverse? = none ↔ m.determinant = 0) ∧
          ∀ n,
            m.inverse? = some n →
              m.mul n = .identity ∧ n.mul m = .identity) ∧
      ∀ (bs : List Bracket) (calls : List (Call α))
        (ms : List (Matrix α)),
        Call.Nested bs calls ms →
          (Call.performAll calls blank).ctm = Matrix.product ms ∧
            ∀ s : Surface α,
              (Call.performAll calls s).ctm =
                  (Matrix.product ms).mul s.ctm ∧
                ∀ earlier,
                  earlier ++ [.leave .group] <+: calls →
                    (∃ outside,
                      Call.OpenedAfter .group outside earlier) ∧
                      ∀ outside,
                        Call.OpenedAfter .group outside earlier →
                          (Call.performAll earlier s).popGroup.1 =
                            ⟨.layer
                                (.group
                                  (Call.performAll outside
                                    s).nextGroup),
                              .none,
                              (Call.performAll outside s).ctm⟩ := by
  refine
    ⟨Matrix.mul_assoc hExact,
      fun m =>
        ⟨Matrix.identity_mul hExact m, Matrix.mul_identity hExact m⟩,
      Matrix.apply_mul hExact,
      fun m =>
        ⟨Matrix.inverse?_eq_none_iff hExact,
          fun n => Matrix.mul_inverse? hExact⟩, ?_⟩
  intro bs calls ms hNested
  refine ⟨hNested.ctm blank, fun s => ⟨?_, ?_⟩⟩
  · rw [hNested.ctm, Matrix.foldr_mul hExact]
  · intro earlier hLeave
    exact
      ⟨hNested.exists_enter hLeave,
        fun outside hOpened => hOpened.popGroup s⟩

namespace SlantedGroup

/- Slants the y axis. -/
def slant : Matrix ℚ :=
  ⟨1, 0, 2, 1, 0, 0⟩

/- Moves the slanted plane. -/
def move : Matrix ℚ :=
  .shift 3 5

/- Stretches both axes. -/
def stretch : Matrix ℚ :=
  .scaling 2 7

/- Turns up to a group, inside of a save that stays open. -/
def outside : List (Call ℚ) :=
  [.turn slant, .enter .save, .turn move]

/- Turns inside of the group, one of them in a save of its own. -/
def content : List (Call ℚ) :=
  [.turn stretch, .enter .save, .turn slant, .leave .save]

/- The group is closed, and what comes behind it is turned. -/
def calls : List (Call ℚ) :=
  outside ++ (.enter .group :: content ++ [.leave .group])
    ++ [.turn stretch]

/-
  The turns in brackets that were closed are forgotten, and the
  group is laid by those around it.
-/
theorem laid_outside :
    Call.Nested [.save] calls [stretch, move, slant] ∧
      outside ++ .enter .group :: content ++ [.leave .group] <+:
        calls ∧
      slant.inverse? = some ⟨1, 0, -2, 1, 0, 0⟩ ∧
      slant.mul ⟨1, 0, -2, 1, 0, 0⟩ = .identity ∧
      (Call.performAll calls blank).ctm = ⟨2, 0, 14, 7, 13, 5⟩ ∧
      (Call.performAll (outside ++ .enter .group :: content)
          blank).popGroup.1 =
        ⟨.layer (.group 0), .none, ⟨1, 0, 2, 1, 13, 5⟩⟩ := by
  have hContent : Call.Nested [] content [stretch] :=
    (Call.Nested.nil.turn stretch).closed .save
      (Call.Nested.nil.turn slant)
  have hOutside : Call.Nested [.save] outside [move, slant] :=
    ((Call.Nested.nil.turn slant).enter .save).turn move
  have hCalls :
      Call.Nested [.save] calls [stretch, move, slant] :=
    (hOutside.closed .group hContent).turn stretch
  have hLeave :
      outside ++ .enter .group :: content ++ [.leave .group] <+:
        calls :=
    ⟨[.turn stretch], by simp [calls]⟩
  have hInverse : slant.inverse? = some ⟨1, 0, -2, 1, 0, 0⟩ := by
    decide +kernel
  rcases transformations_compose (α := ℚ) ExactNegation.exact with
    ⟨-, -, -, hUndone, hTurned⟩
  rcases hTurned _ _ _ hCalls with ⟨hCtm, hLaid⟩
  have hPattern :=
    ((hLaid blank).2 _ hLeave).2 outside
      ⟨content, _, rfl, hContent⟩
  refine
    ⟨hCalls, hLeave, hInverse, ((hUndone slant).2 _ hInverse).1, ?_,
      ?_⟩
  · rw [hCtm]
    decide +kernel
  · rw [hPattern]
    decide +kernel

end SlantedGroup

end Surface

end FixedPage
