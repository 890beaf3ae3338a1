import FixedPage.Proofs.Mirror.Relation
import FixedPage.Proofs.Render.Drawn
import FixedPage.Proofs.Render.Geometries
import FixedPage.Proofs.Scalar.Exact
import FixedPage.Proofs.Surface.FillRule
import Mathlib.Data.List.Basic

/-
  This file says under which rule the clip is narrowed to path
  data. The rule that the data itself sets last comes first.
  Without one, the rule that is found on the surface stays in
  effect: for a path, the one of its geometries.

  Main declarations:
    * `BoxedAt`
    * `ClippedAt`
    * `renderItems_clipRule`
-/

namespace FixedPage

open Markup

variable {α : Type}

section

variable [Scalar α]

------------------------------------------------------------
-- Clips
------------------------------------------------------------

/- Work that narrows the clip to a box on its way. -/
def Work.Boxes : Work α → Prop
| .tile _ => True
| .figure g => g.state.mask?.isSome = true
| .path state _ => state.mask?.isSome = true
| _ => False

/-
  The clip after `pre` is narrowed to a box: to the tile of a
  visual brush, or to the extents of a figure or a path that is
  drawn through a mask.
-/
inductive BoxedAt
    (env : Environment α)
    (first : Run α)
    (st₀ : RenderState α)
    (pre : List (Operation α)) : Prop
| intro
    {work : Work α}
    {stack : Stack α}
    {place : Location}
    {event : Event}
    {rest : List Item}
    {outer : List (Run α)}
    {now : RenderState α}
    {t : Surface α}
    {before after : List (Operation α)}
    (hActive :
      Active env first st₀
        (⟨.page, stack, some (.ok (place, event) :: rest)⟩ :: outer)
        now)
    (hCalled : work.CalledFor env stack place event now t)
    (hBoxes : work.Boxes)
    (hPre : pre = t.written ++ before)
    (hDrawn : (work.apply t).written = pre ++ .clip :: after)

/- The surface with path data drawn on it as a new path. -/
def Surface.drawn
    (data : String)
    (s : Surface α) : Surface α :=
  s.newPath.takeAll (PathData.trace data).steps

/-
  The clip after `pre` is narrowed to path data: that of a canvas
  when it starts, that of a path when it is drawn or when figures
  start inside it, or that of a glyph run when it is drawn. The
  last index is the rule in effect before the data is drawn.
-/
inductive ClippedAt
    (env : Environment α)
    (first : Run α)
    (st₀ : RenderState α)
    (pre : List (Operation α)) :
    String → Option FillRule → Prop
| canvas
    {data : String}
    {stack : Stack α}
    {place : Location}
    {attributes : List Attribute}
    {rest : List Item}
    {outer : List (Run α)}
    {now : RenderState α}
    {t : Surface α}
    (hActive :
      Active env first st₀
        (⟨.page, stack,
          some (.ok (place, .startTag "Canvas" attributes) :: rest)⟩
            :: outer) now)
    (hCalled :
      Work.CalledFor env (.clip data) stack place
        (.startTag "Canvas" attributes) now t)
    (hPre : pre = (t.drawn data).written) :
    ClippedAt env first st₀ pre data (ruleInEffect? t.written)
| figures
    {data : String}
    {f f' : PathFrame α}
    {owner depth : Nat}
    {below : List (Entry α)}
    {geometries : List Element}
    {place : Location}
    {name : String}
    {attributes : List Attribute}
    {rest : List Item}
    {outer : List (Run α)}
    {now read : RenderState α}
    (hOpen :
      OpenPath env first st₀ outer owner below geometries
        ⟨.page, ⟨⟨.path f, owner⟩ :: below, depth⟩,
          some (.ok (place, .startTag name attributes) :: rest)⟩ now)
    (hStarts :
      f.StartsFigures env ⟨place, name, attributes⟩ now f' read)
    (hClip : f'.state.clip? = some data)
    (hPre :
      pre =
        ((Work.apply (.rule f'.state.fillRule) read.surface).drawn
          data).written) :
    ClippedAt env first st₀ pre data
      (some (givenRule (⟨place, name, attributes⟩ :: geometries)))
| path
    {clip data : String}
    {f : PathFrame α}
    {depth : Nat}
    {below : List (Entry α)}
    {geometries : List Element}
    {place : Location}
    {name : String}
    {rest : List Item}
    {outer : List (Run α)}
    {now : RenderState α}
    (hOpen :
      OpenPath env first st₀ outer depth below geometries
        ⟨.page, ⟨⟨.path f, depth⟩ :: below, depth⟩,
          some (.ok (place, .endTag name) :: rest)⟩ now)
    (hData : f.state.data? = some data)
    (hClip : f.state.clip? = some clip)
    (hPre :
      pre =
        ((Work.apply (.rule f.state.fillRule) now.surface).drawn
          clip).written) :
    ClippedAt env first st₀ pre clip (some (givenRule geometries))
| glyphs
    {data : String}
    {f : GlyphsFrame α}
    {depth : Nat}
    {below : List (Entry α)}
    {place : Location}
    {name : String}
    {rest : List Item}
    {outer : List (Run α)}
    {now : RenderState α}
    (hActive :
      Active env first st₀
        (⟨.page, ⟨⟨.glyphs f, depth⟩ :: below, depth⟩,
          some (.ok (place, .endTag name) :: rest)⟩ :: outer) now)
    (hClip : f.run.clip? = some data)
    (hPre : pre = (now.surface.drawn data).written) :
    ClippedAt env first st₀ pre data
      (ruleInEffect? now.surface.written)

------------------------------------------------------------
-- Work
------------------------------------------------------------

omit [Scalar α] in
/- Drawing path data does not narrow the clip. -/
theorem clip_not_mem_steps
    (steps : List (PathStep α)) :
    Operation.clip ∉ .newPath :: steps.map PathStep.operation := by
  intro hMem
  rcases List.mem_cons.mp hMem with hIs | hMem
  · cases hIs
  · rcases List.mem_map.mp hMem with ⟨step, -, hIs⟩
    cases step <;> cases hIs

/- Without a mask, painting a path does not narrow the clip. -/
theorem clip_not_mem_paintPath
    (path : PathBuilder α)
    {state : PathState α}
    (filled : Bool)
    (s : Surface α)
    (hMask : ¬ state.mask?.isSome = true) :
    ∃ ops,
      (paintPath path state filled s).written = s.written ++ ops ∧
        Operation.clip ∉ ops := by
  rw [Bool.not_eq_true, Option.isSome_eq_false_iff,
    Option.isNone_iff_eq_none] at hMask
  rcases written_paintPath path state filled s with
    ⟨ends, hEnds, hWritten⟩
  refine ⟨_, hWritten, ?_⟩
  rw [beginMaskOperations, hMask]
  rw [EndsMask, hMask] at hEnds
  dsimp only at hEnds ⊢
  rw [hEnds, List.append_nil, List.nil_append, List.mem_append]
  rintro (hStep | hPaint)
  · exact clip_not_mem_steps path.steps hStep
  · unfold paintCurrentOperations at hPaint
    split at hPaint <;> simp at hPaint

/- The clip is narrowed to a box or to path data that is drawn. -/
theorem Work.clips
    {work : Work α}
    {s : Surface α}
    {before after : List (Operation α)}
    (hWritten :
      (work.apply s).written =
        s.written ++ (before ++ .clip :: after)) :
    work.Boxes ∨
      ∃ data,
        work = .clip data ∧
          s.written ++ before = (s.drawn data).written := by
  have hNone :
      ∀ ops : List (Operation α),
        (work.apply s).written = s.written ++ ops →
          Operation.clip ∈ ops := by
    intro ops hOps
    rw [List.append_cancel_left (hOps.symm.trans hWritten)]
    simp
  cases work with
  | tile v => exact .inl trivial
  | figure g =>
      by_cases hMask : g.state.mask?.isSome = true
      · exact .inl hMask
      · rcases
          clip_not_mem_paintPath
            (if g.state.isClosed then g.figure.push .close
              else g.figure)
            g.state.isFilled s hMask with
          ⟨ops, hOps, hNot⟩
        exact absurd (hNone ops hOps) hNot
  | path state data =>
      by_cases hMask : state.mask?.isSome = true
      · exact .inl hMask
      · rcases
          clip_not_mem_paintPath
            (PathBuilder.empty.takeAll (PathData.trace data).steps) true
            s hMask with
          ⟨ops, hOps, hNot⟩
        exact absurd (hNone ops hOps) hNot
  | rule r =>
      have hMem := hNone _ (Surface.written_record _ s)
      simp at hMem
  | glyphs run matrix layout =>
      have hMem :=
        hNone _ ((written_show run matrix layout s).trans
          (List.append_assoc ..))
      cases hSource : run.fill? with
      | none => simp [hSource] at hMem
      | some fill => simp [hSource] at hMem
  | clip data =>
      refine .inr ⟨data, rfl, ?_⟩
      have hOps :=
        List.append_cancel_left
          ((Surface.written_clipTo data s).symm.trans hWritten)
      have hSteps :=
        clip_not_mem_steps (PathData.trace (α := α) data).steps
      unfold clipOperations at hOps
      dsimp only at hOps
      split at hOps
      · rw [List.append_nil] at hOps
        exact absurd (by rw [hOps]; simp) hSteps
      · rw [List.append_cons_inj_of_notMem hSteps List.not_mem_nil]
          at hOps
        rw [Surface.drawn, Surface.written_takeAll,
          Surface.written_newPath, ← hOps.1, List.append_assoc]
        rfl

/- A rule that is set is in effect. -/
theorem ruleInEffect?_setFillRule
    (rule : FillRule)
    (s : Surface α) :
    ruleInEffect? (Work.apply (.rule rule) s).written = some rule := by
  rw [Work.apply, Surface.written_record, ruleInEffect?_append]
  rfl

/- Path data that is drawn sets its own rule, if it has one. -/
theorem ruleInEffect?_drawn
    (data : String)
    (s : Surface α) :
    ruleInEffect? (s.drawn data).written =
      (PathData.fillRule? α data).or (ruleInEffect? s.written) := by
  rw [Surface.drawn, Surface.written_takeAll, Surface.written_newPath,
    ruleInEffect?_append, RuleState.takeAll_append,
    RuleState.takeAll_steps]
  rfl

------------------------------------------------------------
-- Clips that are narrowed
------------------------------------------------------------

/- What is narrowed to path data, and the rule that is found. -/
theorem clippedAt_of_called
    {env : Environment α}
    {items : List Item}
    {st₀ : RenderState α}
    {data : String}
    {stack : Stack α}
    {place : Location}
    {event : Event}
    {rest : List Item}
    {outer : List (Run α)}
    {now : RenderState α}
    {t : Surface α}
    (hActive :
      Active env (.ofPage items) st₀
        (⟨.page, stack, some (.ok (place, event) :: rest)⟩ :: outer)
        now)
    (hCalled :
      Work.CalledFor env (.clip data) stack place event now t) :
    ClippedAt env (.ofPage items) st₀ (t.drawn data).written data
      (ruleInEffect? t.written) := by
  cases hCalled with
  | canvasClip hFrame hRead hClip =>
      exact .canvas hActive (.canvasClip hFrame hRead hClip) rfl
  | @figuresClip f f' _ _ _ _ _ _ _ read _ hStarts hClip =>
      rcases hActive.openPath (Run.ofPage_no_path items)
          ⟨[], f, rfl⟩ with
        ⟨geometries, hOpen⟩
      have hRule := PathFrame.readGeometry_gives _ _ f' _ _ hStarts.read
      rw [hOpen.holdsRule.path_rule, ← givenRule_cons] at hRule
      have hFound :=
        (ruleInEffect?_setFillRule f'.state.fillRule
          read.surface).trans (congrArg some hRule)
      rw [hFound]
      exact .figures hOpen hStarts hClip rfl
  | @pathClip f _ _ _ _ _ _ _ hData hClip =>
      rcases hActive.openPath (Run.ofPage_no_path items)
          ⟨[], f, rfl⟩ with
        ⟨geometries, hOpen⟩
      have hFound :=
        (ruleInEffect?_setFillRule f.state.fillRule
          now.surface).trans
          (congrArg some hOpen.holdsRule.path_rule)
      rw [hFound]
      exact .path hOpen hData hClip rfl
  | glyphsClip hClip => exact .glyphs hActive hClip rfl

/-
  Unless it is narrowed to a box, the clip is narrowed to path data
  under the rule that the data sets last, or else under the rule
  that is found. So the clip has its own rule, which is the even
  and odd one by default, exactly if the data sets a rule or the
  rule that is found happens to be that one.
-/
theorem renderItems_clipRule
    (env : Environment α)
    (items : List Item)
    (st : RenderState α)
    (pre post : List (Operation α))
    (hOps :
      (renderItems env items st).2.surface.written =
        pre ++ .clip :: post)
    (hNew : st.surface.written.length ≤ pre.length) :
    BoxedAt env (.ofPage items) st pre ∨
      ∃ data found?,
        ClippedAt env (.ofPage items) st pre data found? ∧
          ruleInEffect? pre =
            (PathData.fillRule? α data).or found? ∧
          (ruleInEffect? pre =
              some ((PathData.fillRule? α data).getD .evenOdd) ↔
            (PathData.fillRule? α data).isSome = true ∨
              found? = some .evenOdd) := by
  rcases (renderItems_drawing env items st).called hOps hNew rfl with
    ⟨stack, place, event, rest, outer, now, work, t, before, after,
      hActive, hCalled, hWritten, hPre⟩
  rcases Work.clips hWritten with hBoxes | ⟨data, rfl, hDrawn⟩
  · left
    have hClipped : (work.apply t).written = pre ++ .clip :: after := by
      rw [hWritten, hPre, List.append_assoc]
    exact .intro hActive hCalled hBoxes hPre hClipped
  · right
    rw [← hPre] at hDrawn
    subst hDrawn
    refine
      ⟨data, _, clippedAt_of_called hActive hCalled,
        ruleInEffect?_drawn data t, ?_⟩
    rw [ruleInEffect?_drawn]
    cases PathData.fillRule? α data <;> simp

end

------------------------------------------------------------
-- Nested clips
------------------------------------------------------------

namespace NestedClips

/- The clip of a canvas, which sets a rule. -/
def outer : String :=
  "F1 M 0,0 L 9,0 9,9"

/- The clip of a canvas inside it, which sets none. -/
def inner : String :=
  "M 0,0 L 5,0 5,5"

/- A page with the two canvases. -/
def page : List Item :=
  ([.startTag "FixedPage" [],
    .startTag "Canvas" [⟨"Clip", outer⟩],
    .startTag "Canvas" [⟨"Clip", inner⟩],
    .endTag "Canvas", .endTag "Canvas",
    .endTag "FixedPage"] : List Event).map
      fun tag => .ok (⟨"page", 1, 1⟩, tag)

/- What the page draws. -/
def drawn : List (Operation ℚ) :=
  (renderItems .empty page
    (.start .empty .empty .empty)).2.surface.written

end NestedClips

/- The inner clip is narrowed under the rule of the outer one. -/
theorem NestedClips.clipped_nonZero :
    PathData.fillRule? ℚ NestedClips.inner = none ∧
      ruleInEffect? (NestedClips.drawn.take 12) = some .nonZero ∧
      (BoxedAt .empty (.ofPage NestedClips.page)
          (.start .empty .empty .empty) (NestedClips.drawn.take 12) ∨
        ∃ data found?,
          ClippedAt .empty (.ofPage NestedClips.page)
              (.start .empty .empty .empty)
              (NestedClips.drawn.take 12) data found? ∧
            some .nonZero = (PathData.fillRule? ℚ data).or found? ∧
            (some .nonZero =
                some ((PathData.fillRule? ℚ data).getD .evenOdd) ↔
              (PathData.fillRule? ℚ data).isSome = true ∨
                found? = some .evenOdd)) := by
  have hOps :
      NestedClips.drawn =
        NestedClips.drawn.take 12
          ++ .clip :: NestedClips.drawn.drop 13 := by
    decide +kernel
  have hRule :
      ruleInEffect? (NestedClips.drawn.take 12) = some .nonZero := by
    decide +kernel
  have hClipped :=
    renderItems_clipRule .empty NestedClips.page
      (.start .empty .empty .empty) (NestedClips.drawn.take 12)
      (NestedClips.drawn.drop 13) hOps (Nat.zero_le _)
  rw [hRule] at hClipped
  exact ⟨by decide +kernel, hRule, hClipped⟩

end FixedPage
