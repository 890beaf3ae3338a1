import FixedPage.Proofs.Mirror.Relation
import FixedPage.Proofs.Render.Figures
import FixedPage.Proofs.Scalar.Exact

/-
  This file says under which rule paths and figures are filled.
  The rule that a path sets itself comes first. Without one, the
  rule that the clip of the path has set last stays in effect,
  and only if the clip has none is it the rule of the geometry.

  Main declarations:
    * `FilledShape`
    * `FilledAt`
    * `ruleInEffect?_clipToAny`
    * `renderItems_fillRule`
-/

namespace FixedPage

open Markup

variable {α : Type}

------------------------------------------------------------
-- Shapes
------------------------------------------------------------

/-
  What may decide how a shape is filled: the rule that its own
  path data sets last, the one that the data of its clip sets
  last, and the one given with its geometry.
-/
structure FilledShape where
  own? : Option FillRule
  clip? : Option FillRule
  given : FillRule
deriving DecidableEq, Repr

namespace FilledShape

/- The rule that the geometry of the shape asks for. -/
def asked
    (shape : FilledShape) : FillRule :=
  shape.own?.getD shape.given

/- The rule under which the shape is filled. -/
def rule
    (shape : FilledShape) : FillRule :=
  (shape.own?.or shape.clip?).getD shape.given

/- The clip matters when it alone sets a rule of its own. -/
theorem rule_eq_asked_iff
    (shape : FilledShape) :
    shape.rule = shape.asked ↔
      shape.own?.isSome = true ∨ shape.clip? = none ∨
        shape.clip? = some shape.given := by
  rcases shape with ⟨_ | own, _ | clip, given⟩ <;>
    simp [rule, asked]

end FilledShape

section

variable [Scalar α]

/- The rule that the data of a clip sets last. -/
def clipRule?
    (α : Type)
    [Scalar α]
    (clip? : Option String) : Option FillRule :=
  clip?.bind (PathData.fillRule? α)

/-
  The operation that follows `pre` belongs to a shape that is
  painted, in a run under way: to a path given as data when its
  element ends, or to a figure when it ends.
-/
inductive FilledAt
    (env : Environment α)
    (first : Run α)
    (st₀ : RenderState α)
    (pre : List (Operation α))
    (op : Operation α) : FilledShape → Prop
| path
    {f : PathFrame α}
    {depth : Nat}
    {below : List (Entry α)}
    {geometries : List Element}
    {place : Location}
    {name data : String}
    {rest : List Item}
    {outer : List (Run α)}
    {now : RenderState α}
    {s : Surface α}
    {before after : List (Operation α)}
    (hOpen :
      OpenPath env first st₀ outer depth below geometries
        ⟨.page, ⟨⟨.path f, depth⟩ :: below, depth⟩,
          some (.ok (place, .endTag name) :: rest)⟩ now)
    (hData : f.state.data? = some data)
    (hSurface :
      s =
        (Work.apply (.rule f.state.fillRule) now.surface).clipToAny
          f.state.clip?)
    (hPre : pre = s.written ++ before)
    (hPainted :
      (Work.apply (.path f.state data) s).written = pre ++ op :: after) :
    FilledAt env first st₀ pre op
      ⟨PathData.fillRule? α data, clipRule? α f.state.clip?,
        givenRule geometries⟩
| figure
    {f' : PathFrame α}
    {geometries : List Element}
    {g : GeometryFrame α}
    {stack : Stack α}
    {owner : Nat}
    {under : List (Entry α)}
    {place : Location}
    {rest : List Item}
    {outer : List (Run α)}
    {now : RenderState α}
    {before after : List (Operation α)}
    (hOpen :
      OpenFigures env first st₀ outer owner under f' geometries
        ⟨.page, stack, some (.ok (place, .endTag "PathFigure") :: rest)⟩
        now)
    (hEnds : stack.EndsFigure g)
    (hPre : pre = now.surface.written ++ before)
    (hPainted :
      (Work.apply (.figure g) now.surface).written =
        pre ++ op :: after) :
    FilledAt env first st₀ pre op
      ⟨none, clipRule? α f'.state.clip?, givenRule geometries⟩

------------------------------------------------------------
-- Work
------------------------------------------------------------

/- After a rule and a clip that follows it. -/
theorem ruleInEffect?_clipToAny
    (rule : FillRule)
    (clip? : Option String)
    (s : Surface α) :
    ruleInEffect? ((Work.apply (.rule rule) s).clipToAny clip?).written =
      (clipRule? α clip?).or (some rule) := by
  rw [Surface.written_clipToAny, ruleInEffect?_append, Work.apply,
    Surface.written_record, RuleState.takeAll_append]
  cases clip? with
  | none => rfl
  | some data =>
      rw [Option.elim_some, RuleState.takeAll_clipOperations]
      rfl

/- Nothing but a figure or a path is filled. -/
theorem Work.fills
    {work : Work α}
    {s : Surface α}
    {op : Operation α}
    {before after : List (Operation α)}
    (hWritten :
      (work.apply s).written = s.written ++ (before ++ op :: after))
    (hFill : op.isFill = true) :
    (∃ g, work = .figure g) ∨ ∃ state data, work = .path state data := by
  have hPaint : op.paints = true := by
    cases op <;> first | rfl | cases hFill
  rcases Work.paints hWritten hPaint with
    hFigure | hPath | ⟨run, matrix, layout, rfl⟩
  · exact .inl hFigure
  · exact .inr hPath
  · have hShown :=
      (written_show run matrix layout s).trans (List.append_assoc ..)
    have hOps := List.append_cancel_left (hShown.symm.trans hWritten)
    have hMem : op ∈ before ++ op :: after := by simp
    rw [← hOps] at hMem
    cases hSource : run.fill? with
    | none =>
        rw [hSource] at hMem
        cases List.mem_singleton.mp hMem
        cases hFill
    | some fill =>
        rw [hSource] at hMem
        simp only [Option.elim_some, List.cons_append,
          List.nil_append, List.mem_cons, List.not_mem_nil,
          or_false] at hMem
        rcases hMem with rfl | rfl <;> cases hFill

omit [Scalar α] in
/-
  What a shape is filled under, when the rules before it are those
  that its geometry and its clip leave.
-/
theorem PaintsUnder.ruleInEffect?
    {rule? clip? : Option FillRule}
    {given : FillRule}
    {ops before after : List (Operation α)}
    {op : Operation α}
    {s : Surface α}
    (hPaints : PaintsUnder rule? ops)
    (hOps : ops = before ++ op :: after)
    (hFill : op.isFill = true)
    (hRule : FixedPage.ruleInEffect? s.written = clip?.or (some given)) :
    FixedPage.ruleInEffect? (s.written ++ before) =
      some (FilledShape.rule ⟨rule?, clip?, given⟩) := by
  rw [ruleInEffect?_append, hPaints.fills _ before op after hOps hFill]
  change rule?.or (FixedPage.ruleInEffect? s.written) = _
  rw [hRule, FilledShape.rule]
  cases rule? <;> cases clip? <;> rfl

------------------------------------------------------------
-- Figures
------------------------------------------------------------

variable {env : Environment α} {first : Run α} {st₀ : RenderState α}

/-
  Before a figure ends, the rule in effect is the one that the
  clip of its path has set last, or else that of its geometry,
  and the figure sets none itself.
-/
theorem OpenFigures.ruleInEffect?
    {outer : List (Run α)}
    {owner : Nat}
    {below : List (Entry α)}
    {f' : PathFrame α}
    {geometries : List Element}
    {g : GeometryFrame α}
    {run : Run α}
    {now : RenderState α}
    (hOpen :
      OpenFigures env first st₀ outer owner below f' geometries run
        now)
    (hOn : run.stack.OnGeometry g owner below) :
    g.figure.fillRule? = none ∧
      FixedPage.ruleInEffect? now.surface.written =
        (clipRule? α f'.state.clip?).or (some (givenRule geometries)) := by
  have hGiven := hOpen.rule
  rcases hOpen with ⟨hPath, hStarts, hFed, hOnFirst, hLasts⟩
  cases Stack.takes_of_feed hFed with
  | seen hStart => cases (hStarts.perform hStart).1
  | owned hStart =>
      rcases hStarts.perform hStart with ⟨hChild, hSurface⟩
      cases hChild
      cases hOnFirst
      rcases hLasts.leavesRules .top rfl with
        ⟨g', hOn', hFigure, ops, hWritten, hLeaves⟩
      refine ⟨hOn.unique hOn' ▸ hFigure, ?_⟩
      rw [hWritten, ruleInEffect?_append, hLeaves, ← hGiven,
        ← ruleInEffect?_clipToAny, ← hSurface]
      rfl

------------------------------------------------------------
-- Shapes that are filled
------------------------------------------------------------

/-
  A fill happens under the rule that the path data of the shape
  sets last, or else the one that the data of its clip sets last,
  and only without both under the rule given with its geometry.
  That is the rule that the geometry asks for unless the clip
  alone sets another one.
-/
theorem renderItems_fillRule
    (env : Environment α)
    (items : List Item)
    (st : RenderState α)
    (pre post : List (Operation α))
    (preserve : Bool)
    (hOps :
      (renderItems env items st).2.surface.written =
        pre ++ .fill preserve :: post)
    (hNew : st.surface.written.length ≤ pre.length) :
    ∃ shape,
      FilledAt env (.ofPage items) st pre (.fill preserve) shape ∧
        ruleInEffect? pre = some shape.rule ∧
        (ruleInEffect? pre = some shape.asked ↔
          shape.own?.isSome = true ∨ shape.clip? = none ∨
            shape.clip? = some shape.given) := by
  have hShape :
      ∃ shape,
        FilledAt env (.ofPage items) st pre (.fill preserve) shape ∧
          ruleInEffect? pre = some shape.rule := by
    rcases (renderItems_drawing env items st).called hOps hNew rfl with
      ⟨stack, place, event, rest, outer, now, work, s, before, after,
        hActive, hWork, hWritten, hPre⟩
    have hPainted :
        (work.apply s).written = pre ++ .fill preserve :: after := by
      rw [hWritten, hPre, List.append_assoc]
    rcases Work.fills hWritten rfl with ⟨g, rfl⟩ | ⟨state, data, rfl⟩
    · cases hWork with
      | figure hEnds =>
          rcases hEnds.onGeometry with ⟨owner, below, hOn⟩
          rcases hActive.openFigures (Run.ofPage_counted items st)
              (Run.ofPage_no_geometry items) (Run.ofPage_no_path items)
              hOn with
            ⟨f', geometries, hOpen⟩
          rcases hOpen.ruleInEffect? hOn with ⟨hFigure, hRule⟩
          rcases g.endFigure_paintsUnder hFigure now.surface with
            ⟨ops, hFigureOps, hPaints⟩
          have hSplit :=
            List.append_cancel_left (hFigureOps.symm.trans hWritten)
          refine ⟨_, .figure hOpen hEnds hPre hPainted, ?_⟩
          rw [hPre]
          exact hPaints.ruleInEffect? hSplit rfl hRule
    · cases hWork with
      | @path f _ _ _ _ _ _ hData hGood =>
          rcases hActive.openPath (Run.ofPage_no_path items)
              ⟨[], f, rfl⟩ with
            ⟨geometries, hOpen⟩
          have hGiven := hOpen.holdsRule.path_rule
          have hRule :=
            (ruleInEffect?_clipToAny f.state.fillRule f.state.clip?
              now.surface).trans (by rw [hGiven])
          rcases
            paintPath_paintsUnder
              (PathBuilder.empty.takeAll (PathData.trace data).steps)
              f.state true
              ((Work.apply (.rule f.state.fillRule)
                now.surface).clipToAny f.state.clip?) with
            ⟨ops, hPathOps, hPaints⟩
          rw [PathData.fillRule?_builder] at hPaints
          have hSplit :=
            List.append_cancel_left (hPathOps.symm.trans hWritten)
          refine ⟨_, .path hOpen hData rfl hPre hPainted, ?_⟩
          rw [hPre]
          exact hPaints.ruleInEffect? hSplit rfl hRule
  rcases hShape with ⟨shape, hFilled, hRule⟩
  refine ⟨shape, hFilled, hRule, ?_⟩
  rw [hRule, Option.some_inj, shape.rule_eq_asked_iff]

end

------------------------------------------------------------
-- A clipped triangle
------------------------------------------------------------

namespace ClippedTriangle

/- A triangle that sets no rule. -/
def triangle : String :=
  "M 0,0 L 10,0 10,10"

/- Its clip, which sets one. -/
def clip : String :=
  "F1 M 0,0 L 5,0 5,5"

/- A page with the triangle. -/
def page : List Item :=
  ([.startTag "FixedPage" [],
    .startTag "Path"
      [⟨"Data", triangle⟩, ⟨"Clip", clip⟩, ⟨"Fill", "#FF0000"⟩],
    .endTag "Path",
    .endTag "FixedPage"] : List Event).map
      fun tag => .ok (⟨"page", 1, 1⟩, tag)

/- What the page draws. -/
def drawn : List (Operation ℚ) :=
  (renderItems .empty page
    (.start .empty .empty .empty)).2.surface.written

end ClippedTriangle

/- The triangle is filled under the rule of its clip. -/
theorem ClippedTriangle.filled_nonZero :
    PathData.fillRule? ℚ ClippedTriangle.triangle = none ∧
      ruleInEffect? (ClippedTriangle.drawn.take 13) = some .nonZero ∧
      ∃ shape,
        FilledAt .empty (.ofPage ClippedTriangle.page)
            (.start .empty .empty .empty)
            (ClippedTriangle.drawn.take 13) (.fill false) shape ∧
          some .nonZero = some shape.rule ∧
          (some .nonZero = some shape.asked ↔
            shape.own?.isSome = true ∨ shape.clip? = none ∨
              shape.clip? = some shape.given) := by
  have hOps :
      ClippedTriangle.drawn =
        ClippedTriangle.drawn.take 13
          ++ .fill false :: ClippedTriangle.drawn.drop 14 := by
    decide +kernel
  have hRule :
      ruleInEffect? (ClippedTriangle.drawn.take 13) =
        some .nonZero := by
    decide +kernel
  have hFilled :=
    renderItems_fillRule .empty ClippedTriangle.page
      (.start .empty .empty .empty) (ClippedTriangle.drawn.take 13)
      (ClippedTriangle.drawn.drop 14) false hOps (Nat.zero_le _)
  rw [hRule] at hFilled
  exact ⟨by decide +kernel, hRule, hFilled⟩

end FixedPage
