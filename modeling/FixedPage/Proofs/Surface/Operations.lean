import FixedPage.Render.Closing

/-
  This file says what drawing writes: the operations that the
  surface has more afterwards, in order. A surface never loses an
  operation.

  Main declarations:
    * `Surface.written`
    * `Surface.clipTo`
    * `clipOperations`
    * `boxOperations`
    * `written_paintPath`
-/

namespace FixedPage

variable {α : Type}

------------------------------------------------------------
-- Operations
------------------------------------------------------------

/- The operation that a step of a path is. -/
def PathStep.operation : PathStep α → Operation α
| .draw s => .segment s
| .rule r => .setFillRule r

/- The operation paints something of its own with the source. -/
def Operation.paints : Operation α → Bool
| .fill _ => true
| .stroke _ => true
| .showGlyphs _ _ _ => true
| _ => false

/- The operation draws a path or narrows the clip to it. -/
def Operation.isOutline : Operation α → Bool
| .newPath => true
| .segment _ => true
| .setFillRule _ => true
| .clip => true
| _ => false

/- An outline paints nothing. -/
theorem Operation.paints_of_isOutline
    {op : Operation α}
    (hOutline : op.isOutline = true) :
    op.paints = false := by
  cases op <;> first | rfl | cases hOutline

/- Steps of a path are an outline. -/
theorem isOutline_steps
    (steps : List (PathStep α)) :
    ∀ op ∈ steps.map PathStep.operation, op.isOutline = true := by
  intro op hMem
  rcases List.mem_map.mp hMem with ⟨step, -, rfl⟩
  cases step <;> rfl

namespace Surface

/- The operations on a surface, in order. -/
def written
    (s : Surface α) : List (Operation α) :=
  s.operations.toList

@[simp] theorem written_record
    (op : Operation α)
    (s : Surface α) :
    (s.record op).written = s.written ++ [op] := by
  simp [written, record]

@[simp] theorem written_save
    (s : Surface α) :
    s.save.written = s.written ++ [.save] :=
  written_record ..

@[simp] theorem written_unsave
    (s : Surface α) :
    s.unsave.written = s.written := by
  unfold unsave
  split <;> rfl

@[simp] theorem written_restore
    (s : Surface α) :
    s.restore.written = s.written ++ [.restore] := by
  rw [restore, written_record, written_unsave]

@[simp] theorem written_transform
    [Scalar α]
    (m : Matrix α)
    (s : Surface α) :
    (s.transform m).written = s.written ++ [.transform m] :=
  written_record ..

@[simp] theorem written_newPath
    (s : Surface α) :
    s.newPath.written = s.written ++ [.newPath] :=
  written_record ..

@[simp] theorem written_clip
    (s : Surface α) :
    s.clip.written = s.written ++ [.clip] :=
  written_record ..

@[simp] theorem written_setSource
    (pattern : Pattern α)
    (s : Surface α) :
    (s.setSource pattern).written =
      s.written ++ [.setSource pattern] :=
  written_record ..

@[simp] theorem written_pushGroup
    (s : Surface α) :
    s.pushGroup.written = s.written ++ [.pushGroup] :=
  written_record ..

@[simp] theorem written_closeGroup
    (s : Surface α) :
    s.closeGroup.written = s.written ++ [.popGroup s.topLayer] := by
  rw [closeGroup, written_record, written_unsave]
  rfl

@[simp] theorem written_takeAll
    (steps : List (PathStep α))
    (s : Surface α) :
    (s.takeAll steps).written =
      s.written ++ steps.map PathStep.operation := by
  unfold takeAll
  induction steps generalizing s with
  | nil => simp
  | cons step rest ih =>
      have hStep :
          (s.take step).written = s.written ++ [step.operation] := by
        cases step with
        | draw segment => exact written_record ..
        | rule r => exact written_record ..
      rw [List.foldl_cons, ih, hStep, List.append_assoc]
      rfl

@[simp] theorem written_rectangle
    [Scalar α]
    (r : Rectangle α)
    (s : Surface α) :
    (s.rectangle r).written =
      s.written ++ (PathBuilder.rectangle r).map .segment := by
  rw [rectangle, written_takeAll, List.map_map]
  rfl

end Surface

------------------------------------------------------------
-- Clips
------------------------------------------------------------

section

variable [Scalar α]

/- Narrows the clip to path data, unless the data is at fault. -/
def Surface.clipTo
    (data : String)
    (s : Surface α) : Surface α :=
  let trace : PathData.Trace α := PathData.trace data
  let drawn := s.newPath.takeAll trace.steps
  if trace.fault?.isSome then drawn else drawn.clip

/- Narrows the clip if there is something to narrow it to. -/
def Surface.clipToAny
    (data? : Option String)
    (s : Surface α) : Surface α :=
  match data? with
  | none => s
  | some data => s.clipTo data

/- Narrowing the clip to path data writes these operations. -/
def clipOperations
    (data : String) : List (Operation α) :=
  let trace : PathData.Trace α := PathData.trace data
  .newPath :: trace.steps.map PathStep.operation
    ++ if trace.fault?.isSome then [] else [.clip]

/- Narrowing the clip to a box writes these operations. -/
def boxOperations
    (box : Rectangle α) : List (Operation α) :=
  .newPath :: (PathBuilder.rectangle box).map .segment ++ [.clip]

/- Narrowing the clip to a box takes an outline. -/
theorem isOutline_boxOperations
    (box : Rectangle α) :
    ∀ op ∈ boxOperations box, op.isOutline = true := by
  intro op hMem
  simp only [boxOperations, List.mem_append, List.mem_cons,
    List.mem_map, List.not_mem_nil, or_false] at hMem
  rcases hMem with (rfl | ⟨segment, -, rfl⟩) | rfl <;> rfl

/- Narrowing the clip to path data takes an outline. -/
theorem isOutline_clipOperations
    (data : String) :
    ∀ op ∈ clipOperations (α := α) data, op.isOutline = true := by
  intro op hMem
  unfold clipOperations at hMem
  dsimp only at hMem
  rw [List.cons_append, List.mem_cons, List.mem_append] at hMem
  rcases hMem with rfl | hStep | hClip
  · rfl
  · exact isOutline_steps _ op hStep
  · split at hClip
    · cases hClip
    · rcases List.mem_singleton.mp hClip with rfl
      rfl

@[simp] theorem Surface.written_clipTo
    (data : String)
    (s : Surface α) :
    (s.clipTo data).written = s.written ++ clipOperations data := by
  unfold clipTo clipOperations
  dsimp only
  split <;> simp

@[simp] theorem Surface.written_clipToAny
    (data? : Option String)
    (s : Surface α) :
    (s.clipToAny data?).written =
      s.written ++ data?.elim [] clipOperations := by
  cases data? <;> simp [clipToAny]

end

------------------------------------------------------------
-- Paths
------------------------------------------------------------

section

variable [Scalar α]

/- Drawing into the group of a mask writes these before the path. -/
def beginMaskOperations
    (state : PathState α)
    (path : PathBuilder α) : List (Operation α) :=
  match state.mask? with
  | none => []
  | some _ =>
      (state.maskExtents? path).elim [] boxOperations ++ [.pushGroup]

omit [Scalar α] in
/- Filling and stroking the current path writes these. -/
def paintCurrentOperations
    (state : PathState α)
    (filled : Bool) : List (Operation α) :=
  match if filled then state.fill? else none, state.stroke? with
  | some fill, some stroke =>
      [.setSource fill, .fill true, .setSource stroke,
        .stroke state.strokeStyle]
  | some fill, none => [.setSource fill, .fill false]
  | none, some stroke =>
      [.setSource stroke, .stroke state.strokeStyle]
  | none, none => [.newPath]

omit [Scalar α] in
/- What painting the group of a mask writes. -/
def EndsMask
    (state : PathState α)
    (ops : List (Operation α)) : Prop :=
  match state.mask? with
  | none => ops = []
  | some mask =>
      ∃ layer group,
        ops = [.popGroup layer, .setSource group, .mask mask]

/- Drawing into the group of a mask paints nothing. -/
theorem paints_beginMask
    (path : PathBuilder α)
    (state : PathState α) :
    ∀ op ∈ beginMaskOperations state path, op.paints = false := by
  intro op hMem
  unfold beginMaskOperations at hMem
  split at hMem
  · cases hMem
  · rcases List.mem_append.mp hMem with hBox | hGroup
    · cases hExtents : state.maskExtents? path with
      | none =>
          rw [hExtents] at hBox
          cases hBox
      | some box =>
          rw [hExtents] at hBox
          exact
            Operation.paints_of_isOutline
              (isOutline_boxOperations box op hBox)
    · rcases List.mem_singleton.mp hGroup with rfl
      rfl

omit [Scalar α] in
/- The group of a mask is painted as a whole. -/
theorem EndsMask.paints
    {state : PathState α}
    {ends : List (Operation α)}
    (hEnds : EndsMask state ends) :
    ∀ op ∈ ends, op.paints = false := by
  intro op hMem
  unfold EndsMask at hEnds
  split at hEnds
  · subst hEnds
    cases hMem
  · rcases hEnds with ⟨layer, group, rfl⟩
    simp only [List.mem_cons, List.not_mem_nil, or_false] at hMem
    rcases hMem with rfl | rfl | rfl <;> rfl

theorem written_beginMask
    (state : PathState α)
    (path : PathBuilder α)
    (s : Surface α) :
    (beginMask state path s).written =
      s.written ++ beginMaskOperations state path := by
  unfold beginMask beginMaskOperations
  cases state.mask? with
  | none => simp
  | some mask =>
      cases state.maskExtents? path with
      | none => simp
      | some box => simp [boxOperations]

omit [Scalar α] in
theorem written_paintCurrent
    (state : PathState α)
    (filled : Bool)
    (s : Surface α) :
    (paintCurrent state filled s).written =
      s.written ++ paintCurrentOperations state filled := by
  unfold paintCurrent paintCurrentOperations
  dsimp only
  generalize (if filled = true then state.fill? else none) = fill?
  cases fill? <;> cases state.stroke? <;> simp

omit [Scalar α] in
theorem written_endMask
    (state : PathState α)
    (s : Surface α) :
    ∃ ends, EndsMask state ends ∧
      (endMask state s).written = s.written ++ ends := by
  unfold endMask EndsMask
  cases state.mask? with
  | none => exact ⟨[], rfl, by simp⟩
  | some mask =>
      refine ⟨_, ⟨s.topLayer, s.popGroup.1, rfl⟩, ?_⟩
      simp [maskGroup, Surface.popGroupToSource, Surface.popGroup]

/- What painting a path writes. -/
theorem written_paintPath
    (path : PathBuilder α)
    (state : PathState α)
    (filled : Bool)
    (s : Surface α) :
    ∃ ends, EndsMask state ends ∧
      (paintPath path state filled s).written =
        s.written ++ (beginMaskOperations state path
          ++ .newPath :: path.steps.map PathStep.operation
          ++ paintCurrentOperations state filled ++ ends) := by
  unfold paintPath
  dsimp only
  rcases
    written_endMask state
      (paintCurrent state filled
        ((beginMask state path s).newPath.takeAll path.steps)) with
    ⟨ends, hEnds, hWritten⟩
  refine ⟨ends, hEnds, ?_⟩
  rw [hWritten, written_paintCurrent, Surface.written_takeAll,
    Surface.written_newPath, written_beginMask]
  simp

end

end FixedPage
