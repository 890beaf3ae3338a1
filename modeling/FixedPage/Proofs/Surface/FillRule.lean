import FixedPage.Proofs.Render.Effect
import FixedPage.Proofs.Surface.Setting

/-
  This file says which fill rule is in effect on a surface. A
  rule stays in effect until another one is set or the bracket
  in which it was set is closed, which brings back the rule from
  before the bracket.

  A path is filled under the rule that it sets itself last, if
  it does, and otherwise under the rule from before. Unless it
  sets a rule, painting a path leaves the rules as they were.

  Clips draw their path data at once. The data of a geometry is
  collected first and drawn later, its rule before its segments.
  Both ways draw the same path under the same rule.

  Main declarations:
    * `RuleState`
    * `ruleInEffect?`
    * `PathData.fillRule?`
    * `RuleState.Fills`
    * `LeavesRules`
    * `paintPath_paintsUnder`
    * `drawData_collected`
-/

namespace FixedPage

variable {α : Type}

------------------------------------------------------------
-- Rules in effect
------------------------------------------------------------

/-
  The rule in effect, if one has been set, and the rules that
  closing the open brackets brings back, the innermost first.
-/
structure RuleState where
  current? : Option FillRule
  saved : List (Option FillRule)
deriving DecidableEq, Repr

namespace RuleState

/- No rule has been set and no bracket is open. -/
def initial : RuleState :=
  ⟨none, []⟩

/- Opens a bracket. -/
def enter
    (rules : RuleState) : RuleState :=
  ⟨rules.current?, rules.current? :: rules.saved⟩

/- Closes the innermost bracket, if one is open. -/
def leave
    (rules : RuleState) : RuleState :=
  match rules.saved with
  | [] => rules
  | rule? :: saved => ⟨rule?, saved⟩

/- Takes one operation. -/
def take
    (rules : RuleState) :
    Operation α → RuleState
| .setFillRule rule => ⟨some rule, rules.saved⟩
| .save => rules.enter
| .pushGroup => rules.enter
| .restore => rules.leave
| .popGroup _ => rules.leave
| _ => rules

/- Takes some operations in order. -/
def takeAll
    (rules : RuleState)
    (ops : List (Operation α)) : RuleState :=
  ops.foldl take rules

@[simp] theorem takeAll_nil
    (rules : RuleState) :
    rules.takeAll ([] : List (Operation α)) = rules :=
  rfl

@[simp] theorem takeAll_cons
    (rules : RuleState)
    (op : Operation α)
    (ops : List (Operation α)) :
    rules.takeAll (op :: ops) = (rules.take op).takeAll ops :=
  rfl

@[simp] theorem takeAll_append
    (rules : RuleState)
    (ops ops' : List (Operation α)) :
    rules.takeAll (ops ++ ops') = (rules.takeAll ops).takeAll ops' :=
  List.foldl_append

end RuleState

/- The rule in effect after some operations. -/
def ruleInEffect?
    (ops : List (Operation α)) : Option FillRule :=
  (RuleState.initial.takeAll ops).current?

/- Only what was written last decides about the rule. -/
theorem ruleInEffect?_append
    (ops ops' : List (Operation α)) :
    ruleInEffect? (ops ++ ops') =
      ((RuleState.initial.takeAll ops).takeAll ops').current? := by
  rw [ruleInEffect?, RuleState.takeAll_append]

------------------------------------------------------------
-- Rules of path data
------------------------------------------------------------

/- The rule that a step sets. -/
def PathStep.rule? : PathStep α → Option FillRule
| .draw _ => none
| .rule r => some r

/- The rule that some steps set last. -/
def lastRule?
    (steps : List (PathStep α)) : Option FillRule :=
  (steps.filterMap PathStep.rule?).getLast?

/- The rule that path data sets last. -/
def PathData.fillRule?
    (α : Type)
    [Scalar α]
    (data : String) : Option FillRule :=
  lastRule? (trace (α := α) data).steps

/- The first step counts when no later one sets a rule. -/
@[simp] theorem lastRule?_cons
    (step : PathStep α)
    (steps : List (PathStep α)) :
    lastRule? (step :: steps) = (lastRule? steps).or step.rule? := by
  unfold lastRule?
  cases hRule : step.rule? with
  | none => rw [List.filterMap_cons_none hRule, Option.or_none]
  | some rule =>
      rw [List.filterMap_cons_some hRule, List.getLast?_cons]
      cases (steps.filterMap PathStep.rule?).getLast? <;> rfl

/- Segments set no rule. -/
theorem lastRule?_draw
    (segments : List (Segment α)) :
    lastRule? (segments.map PathStep.draw) = none := by
  induction segments with
  | nil => rfl
  | cons segment rest ih =>
      rw [List.map_cons, lastRule?_cons, ih]
      rfl

namespace PathBuilder

/- A builder keeps the rule that is set last. -/
theorem fillRule?_takeAll
    (steps : List (PathStep α))
    (b : PathBuilder α) :
    (b.takeAll steps).fillRule? =
      (lastRule? steps).or b.fillRule? := by
  unfold takeAll
  induction steps generalizing b with
  | nil => rfl
  | cons step rest ih =>
      rw [List.foldl_cons, ih, lastRule?_cons, Option.or_assoc]
      cases step <;> rfl

/- A path is drawn again with its rule. -/
theorem lastRule?_steps
    (b : PathBuilder α) :
    lastRule? b.steps = b.fillRule? := by
  unfold steps
  cases b.fillRule? with
  | none => exact lastRule?_draw b.segments
  | some rule =>
      change lastRule? (.rule rule :: b.segments.map .draw) = _
      rw [lastRule?_cons, lastRule?_draw]
      rfl

end PathBuilder

/- A path given as data has the rule that the data sets last. -/
theorem PathData.fillRule?_builder
    [Scalar α]
    (data : String) :
    (PathBuilder.empty.takeAll
      (trace (α := α) data).steps).fillRule? =
        fillRule? α data := by
  rw [PathBuilder.fillRule?_takeAll]
  exact Option.or_none

namespace RuleState

/- Steps of a path set the rule that they set last. -/
theorem takeAll_steps
    (steps : List (PathStep α))
    (rules : RuleState) :
    rules.takeAll (steps.map PathStep.operation) =
      ⟨(lastRule? steps).or rules.current?, rules.saved⟩ := by
  induction steps generalizing rules with
  | nil => rfl
  | cons step rest ih =>
      rw [List.map_cons, takeAll_cons, ih, lastRule?_cons,
        Option.or_assoc]
      cases step <;> rfl

/- Narrowing the clip to path data sets its rule. -/
theorem takeAll_clipOperations
    [Scalar α]
    (data : String)
    (rules : RuleState) :
    rules.takeAll (clipOperations (α := α) data) =
      ⟨(PathData.fillRule? α data).or rules.current?,
        rules.saved⟩ := by
  unfold clipOperations PathData.fillRule?
  dsimp only
  rw [List.cons_append, takeAll_cons, takeAll_append]
  change (rules.takeAll _).takeAll _ = _
  rw [takeAll_steps]
  split <;> rfl

/- Narrowing the clip to a box leaves the rules. -/
theorem takeAll_boxOperations
    [Scalar α]
    (box : Rectangle α)
    (rules : RuleState) :
    rules.takeAll (boxOperations box) = rules := by
  have hSegments :=
    takeAll_steps ((PathBuilder.rectangle box).map .draw) rules
  rw [lastRule?_draw, Option.none_or, List.map_map] at hSegments
  rw [boxOperations, List.cons_append, takeAll_cons, takeAll_append]
  change ((rules.takeAll _).takeAll _) = rules
  exact congrArg (takeAll · [.clip]) hSegments

end RuleState

------------------------------------------------------------
-- Fills
------------------------------------------------------------

/- The operation fills the current path. -/
def Operation.isFill : Operation α → Bool
| .fill _ => true
| _ => false

/- What paints nothing fills nothing. -/
theorem Operation.isFill_of_paints
    {op : Operation α}
    (hNone : op.paints = false) :
    op.isFill = false := by
  cases op <;> first | rfl | cases hNone

/- Whatever some operations fill is filled under one rule. -/
def RuleState.Fills
    (rule? : Option FillRule)
    (rules : RuleState)
    (ops : List (Operation α)) : Prop :=
  ∀ before op after,
    ops = before ++ op :: after →
      op.isFill = true → (rules.takeAll before).current? = rule?

namespace RuleState.Fills

variable {rule? : Option FillRule} {rules : RuleState}
variable {op : Operation α} {ops ops' : List (Operation α)}

/- The first operation and what is filled afterwards. -/
theorem cons_iff :
    Fills rule? rules (op :: ops) ↔
      (op.isFill = true → rules.current? = rule?) ∧
        Fills rule? (rules.take op) ops := by
  constructor
  · intro hFills
    refine ⟨hFills [] op ops rfl, ?_⟩
    rintro before op' after rfl hFill
    exact hFills (op :: before) op' after rfl hFill
  · rintro ⟨hFirst, hRest⟩ before op' after hSplit hFill
    cases before with
    | nil =>
        cases hSplit
        exact hFirst hFill
    | cons _ before =>
        cases hSplit
        exact hRest before op' after rfl hFill

/- Nothing is filled. -/
theorem of_none
    (hNone : ∀ op ∈ ops, op.isFill = false) :
    Fills rule? rules ops := by
  rintro before op after rfl hFill
  rw [hNone op (by simp)] at hFill
  cases hFill

/- What is filled first and what is filled afterwards. -/
theorem append
    (hFirst : Fills rule? rules ops)
    (hNext : Fills rule? (rules.takeAll ops) ops') :
    Fills rule? rules (ops ++ ops') := by
  induction ops generalizing rules with
  | nil => exact hNext
  | cons op ops ih =>
      rw [cons_iff] at hFirst
      rw [List.cons_append, cons_iff]
      exact ⟨hFirst.1, ih hFirst.2 hNext⟩

end RuleState.Fills

------------------------------------------------------------
-- Painted paths
------------------------------------------------------------

section

variable [Scalar α]
variable (path : PathBuilder α) (state : PathState α)
variable (rules : RuleState)

/- Drawing into the group of a mask keeps the rule in effect. -/
theorem takeAll_beginMask :
    rules.takeAll (beginMaskOperations state path) =
      if state.mask?.isSome then rules.enter else rules := by
  unfold beginMaskOperations
  cases state.mask? with
  | none => rfl
  | some mask =>
      cases state.maskExtents? path with
      | none => rfl
      | some box =>
          rw [Option.elim_some, RuleState.takeAll_append,
            RuleState.takeAll_boxOperations]
          rfl

/- A path that is drawn, in the group of its mask, sets its rule. -/
theorem takeAll_drawnPath :
    rules.takeAll
        (beginMaskOperations state path
          ++ .newPath :: path.steps.map PathStep.operation) =
      ⟨path.fillRule?.or rules.current?,
        if state.mask?.isSome then rules.current? :: rules.saved
        else rules.saved⟩ := by
  rw [RuleState.takeAll_append, takeAll_beginMask]
  change RuleState.takeAll _ (path.steps.map PathStep.operation) = _
  rw [RuleState.takeAll_steps, PathBuilder.lastRule?_steps]
  split <;> rfl

omit [Scalar α] in
/- Painting the current path leaves the rules. -/
theorem takeAll_paintCurrent
    (filled : Bool) :
    rules.takeAll (paintCurrentOperations state filled) = rules := by
  unfold paintCurrentOperations
  split <;> rfl

omit [Scalar α] in
/- The current path is filled under the rule in effect. -/
theorem paintCurrent_fills
    (filled : Bool) :
    rules.Fills rules.current?
      (paintCurrentOperations state filled) := by
  unfold paintCurrentOperations
  split
  · simp only [RuleState.Fills.cons_iff]
    exact
      ⟨nofun, fun _ => rfl, nofun, nofun,
        .of_none fun op hMem => by cases hMem⟩
  · simp only [RuleState.Fills.cons_iff]
    exact
      ⟨nofun, fun _ => rfl, .of_none fun op hMem => by cases hMem⟩
  · exact .of_none fun op hMem => by
      simp only [List.mem_cons, List.not_mem_nil, or_false] at hMem
      rcases hMem with rfl | rfl <;> rfl
  · exact .of_none fun op hMem => by
      rcases List.mem_singleton.mp hMem with rfl
      rfl

omit [Scalar α] in
/- Painting the group of a mask brings back the rules. -/
theorem EndsMask.takeAll
    {state : PathState α}
    {ends : List (Operation α)}
    (hEnds : EndsMask state ends) :
    rules.takeAll ends =
      if state.mask?.isSome then rules.leave else rules := by
  unfold EndsMask at hEnds
  cases hMask : state.mask? with
  | none =>
      rw [hMask] at hEnds
      rw [hEnds]
      rfl
  | some mask =>
      rw [hMask] at hEnds
      rcases hEnds with ⟨layer, group, rfl⟩
      rfl

end

/- Some operations bring back whatever rules they find. -/
def LeavesRules
    (ops : List (Operation α)) : Prop :=
  ∀ rules : RuleState, rules.takeAll ops = rules

/- What leaves the rules step by step leaves them. -/
theorem LeavesRules.append
    {ops ops' : List (Operation α)}
    (hFirst : LeavesRules ops)
    (hNext : LeavesRules ops') :
    LeavesRules (ops ++ ops') := by
  intro rules
  rw [RuleState.takeAll_append, hFirst, hNext]

/-
  A path is filled under the rule that it sets last, or else
  under the rule in effect before. A path without a rule leaves
  the rules.
-/
structure PaintsUnder
    (rule? : Option FillRule)
    (ops : List (Operation α)) : Prop where
  fills : ∀ rules : RuleState, rules.Fills (rule?.or rules.current?) ops
  leaves : rule? = none → LeavesRules ops

/- How painting a path treats the rules. -/
theorem paintPath_paintsUnder
    [Scalar α]
    (path : PathBuilder α)
    (state : PathState α)
    (filled : Bool)
    (s : Surface α) :
    ∃ ops,
      (paintPath path state filled s).written = s.written ++ ops ∧
        PaintsUnder path.fillRule? ops := by
  rcases written_paintPath path state filled s with
    ⟨ends, hEnds, hWritten⟩
  refine ⟨_, hWritten, ?_, ?_⟩
  · intro rules
    refine .append (.append (.of_none ?_) ?_) (.of_none ?_)
    · intro op hMem
      apply Operation.isFill_of_paints
      rcases List.mem_append.mp hMem with hMask | hPath
      · exact paints_beginMask path state op hMask
      · rcases List.mem_cons.mp hPath with rfl | hStep
        · rfl
        · exact
            Operation.paints_of_isOutline
              (isOutline_steps path.steps op hStep)
    · have hCurrent :
          (rules.takeAll
            (beginMaskOperations state path
              ++ .newPath :: path.steps.map
                PathStep.operation)).current? =
            path.fillRule?.or rules.current? := by
        rw [takeAll_drawnPath]
      rw [← hCurrent]
      exact paintCurrent_fills state _ filled
    · intro op hMem
      exact Operation.isFill_of_paints (hEnds.paints op hMem)
  · intro hRule rules
    rw [RuleState.takeAll_append, RuleState.takeAll_append,
      takeAll_drawnPath, takeAll_paintCurrent, hEnds.takeAll, hRule]
    cases state.mask? <;> rfl

------------------------------------------------------------
-- Collected paths
------------------------------------------------------------

namespace PathBuilder

/- A builder adds the segments of the steps that it takes. -/
theorem segments_takeAll
    (steps : List (PathStep α))
    (b : PathBuilder α) :
    (b.takeAll steps).segments =
      b.segments ++ steps.filterMap PathStep.segment? := by
  induction steps generalizing b with
  | nil => exact (List.append_nil _).symm
  | cons step rest ih =>
      change ((b.take step).takeAll rest).segments = _
      rw [ih]
      cases step with
      | draw segment =>
          simp [take, push, segments, PathStep.segment?]
      | rule r => rfl

/- A path is drawn again with its segments. -/
theorem filterMap_steps
    (b : PathBuilder α) :
    b.steps.filterMap PathStep.segment? = b.segments := by
  unfold steps
  cases b.fillRule? <;> exact PathStep.filterMap_draw b.segments

end PathBuilder

/- The segment that an operation adds to the current path. -/
def Operation.segment? : Operation α → Option (Segment α)
| .segment s => some s
| _ => none

/- The rule that an operation sets. -/
def Operation.rule? : Operation α → Option FillRule
| .setFillRule r => some r
| _ => none

/- Drawing a step adds the segment of the step. -/
theorem PathStep.segment?_operation
    (steps : List (PathStep α)) :
    (steps.map PathStep.operation).filterMap Operation.segment? =
      steps.filterMap PathStep.segment? := by
  rw [List.filterMap_map]
  exact congrArg (List.filterMap · steps) (funext fun step => by
    cases step <;> rfl)

/- Drawing a step sets the rule of the step. -/
theorem PathStep.rule?_operation
    (steps : List (PathStep α)) :
    (steps.map PathStep.operation).filterMap Operation.rule? =
      steps.filterMap PathStep.rule? := by
  rw [List.filterMap_map]
  exact congrArg (List.filterMap · steps) (funext fun step => by
    cases step <;> rfl)

/- Drawing a path changes nothing but what is written. -/
theorem Surface.takeAll_others
    (steps : List (PathStep α))
    (s : Surface α) :
    s.takeAll steps =
      { s with operations := (s.takeAll steps).operations } := by
  induction steps generalizing s with
  | nil => rfl
  | cons step rest ih =>
      change (s.take step).takeAll rest = _
      rw [ih]
      cases step <;> rfl

/-
  Two ways of drawing on a surface write the same segments in
  the same order and have set the same rule last, if any. So they
  leave the same rule in effect, and closing brackets brings back
  the same rules. Nothing but what is written differs.
-/
structure Surface.DrawAlike
    (s direct later : Surface α) : Prop where
  written :
    ∃ ops ops',
      direct.written = s.written ++ ops ∧
        later.written = s.written ++ ops' ∧
          ops'.filterMap Operation.segment? =
            ops.filterMap Operation.segment? ∧
          (ops'.filterMap Operation.rule?).getLast? =
            (ops.filterMap Operation.rule?).getLast?
  rules :
    ∀ rules : RuleState,
      rules.takeAll later.written = rules.takeAll direct.written
  others : later = { direct with operations := later.operations }

/-
  Steps that draw the same segments and set the same rule last
  draw alike.
-/
theorem Surface.takeAll_alike
    {steps steps' : List (PathStep α)}
    (hSegments :
      steps'.filterMap PathStep.segment? =
        steps.filterMap PathStep.segment?)
    (hRule : lastRule? steps' = lastRule? steps)
    (s : Surface α) :
    s.DrawAlike (s.takeAll steps) (s.takeAll steps') := by
  refine ⟨⟨_, _, written_takeAll .., written_takeAll .., ?_, ?_⟩,
    ?_, ?_⟩
  · rw [PathStep.segment?_operation, PathStep.segment?_operation,
      hSegments]
  · rw [PathStep.rule?_operation, PathStep.rule?_operation]
    exact hRule
  · intro rules
    rw [written_takeAll, written_takeAll, RuleState.takeAll_append,
      RuleState.takeAll_append, RuleState.takeAll_steps,
      RuleState.takeAll_steps, hRule]
  · rw [takeAll_others steps, takeAll_others steps']

/-
  Path data that is drawn at once and path data that is collected
  into a path and drawn when the path is painted are at fault
  alike, and are drawn alike on whatever surface.
-/
theorem drawData_collected
    [Scalar α]
    (data : String)
    (state : PathState α)
    (st st' : RenderState α)
    (s : Surface α) :
    let path : PathBuilder α :=
      .takeAll .empty (PathData.trace data).steps
    ((paintData { state with clip? := none } data).perform st').1 =
        ((drawData data).perform st).1 ∧
      s.DrawAlike (s.drawData data).2 (s.takeAll path.steps) := by
  constructor
  · unfold paintData clipToAny drawData Surface.drawData
    dsimp only
    rw [Action.perform_bind_ok (Action.perform_draw ..),
      Action.perform_bind_ok (Action.perform_pure ..),
      Action.perform_ofEffect]
    cases (PathData.trace (α := α) data).fault? <;> rfl
  · apply Surface.takeAll_alike
    · rw [PathBuilder.filterMap_steps, PathBuilder.segments_takeAll]
      rfl
    · rw [PathBuilder.lastRule?_steps, PathBuilder.fillRule?_takeAll]
      exact Option.or_none

end FixedPage
