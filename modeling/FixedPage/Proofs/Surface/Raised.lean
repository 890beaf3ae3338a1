import FixedPage.Render.Closing

/-
  This file compares two surfaces on which the same is drawn.
  What had been drawn on the second one before stays in front,
  and the groups that it had opened before raise the number of
  every group that is opened now.

  Main declarations:
    * `Pattern.raise`
    * `Operation.raise`
    * `Surface.raise`
    * `Surface.Raises`
    * `Surface.Raises.paintPath`
-/

namespace FixedPage

variable {α : Type}

------------------------------------------------------------
-- Patterns
------------------------------------------------------------

/- Raises the number of a group. -/
def Layer.raise
    (k : Nat) : Layer → Layer
| .group id => .group (id + k)
| .unmatched => .unmatched

/- Raises the number of the group that a pattern shows. -/
def PatternKind.raise
    (k : Nat) : PatternKind α → PatternKind α
| .layer group => .layer (group.raise k)
| kind => kind

/- Raises the number of the group that a pattern shows. -/
def Pattern.raise
    (k : Nat)
    (p : Pattern α) : Pattern α :=
  { p with kind := p.kind.raise k }

/- Raises the numbers of the groups that an operation names. -/
def Operation.raise
    (k : Nat) : Operation α → Operation α
| .setSource pattern => .setSource (pattern.raise k)
| .popGroup layer => .popGroup (layer.raise k)
| .mask pattern => .mask (pattern.raise k)
| op => op

@[simp] theorem Layer.raise_zero
    (layer : Layer) :
    layer.raise 0 = layer := by
  cases layer <;> rfl

@[simp] theorem Pattern.raise_zero
    (p : Pattern α) :
    p.raise 0 = p := by
  rcases p with ⟨kind, extend, matrix⟩
  cases kind with
  | layer group => simp [raise, PatternKind.raise]
  | _ => rfl

/- Patterns stay as they are when no number is raised. -/
theorem Pattern.raise_zero_eq_id :
    Pattern.raise (α := α) 0 = id :=
  funext raise_zero

@[simp] theorem Operation.raise_zero
    (op : Operation α) :
    op.raise 0 = op := by
  cases op <;> simp [raise]

/- Operations stay as they are when no number is raised. -/
theorem Operation.raise_zero_eq_id :
    Operation.raise (α := α) 0 = id :=
  funext raise_zero

------------------------------------------------------------
-- Surfaces
------------------------------------------------------------

/-
  How far the second of two surfaces is ahead: what was drawn on
  it before and the number of groups it had opened before.
-/
structure Shift (α : Type) where
  front : Array (Operation α)
  groups : Nat

/- The shift between surfaces on which the same was drawn. -/
def Shift.zero : Shift α :=
  ⟨#[], 0⟩

@[simp] theorem Shift.groups_zero :
    (zero : Shift α).groups = 0 :=
  rfl

namespace Surface

/- The surface that is ahead of another one. -/
def raise
    (d : Shift α)
    (s : Surface α) : Surface α where
  operations :=
    d.front ++ s.operations.map (Operation.raise d.groups)
  ctm := s.ctm
  saved := s.saved
  groups := s.groups.map (· + d.groups)
  nextGroup := s.nextGroup + d.groups

/- A surface is not ahead of itself. -/
@[simp] theorem raise_zero
    (s : Surface α) :
    s.raise .zero = s := by
  simp [raise, Shift.zero, Operation.raise_zero_eq_id]

variable (d : Shift α) (s : Surface α)

/- What is recorded on both surfaces. -/
theorem raise_record
    (op : Operation α) :
    (s.record op).raise d = (s.raise d).record (op.raise d.groups) := by
  simp [raise, record, Array.map_push, Array.push_append]

/- The layer that closing a group gives on both surfaces. -/
theorem topLayer_raise :
    (s.raise d).topLayer = s.topLayer.raise d.groups := by
  unfold topLayer raise
  cases s.groups <;> rfl

/- The transformation that is restored on both surfaces. -/
theorem raise_unsave :
    s.unsave.raise d = (s.raise d).unsave := by
  rcases s with ⟨operations, ctm, saved, groups, nextGroup⟩
  cases saved <;> rfl

------------------------------------------------------------
-- Drawing on both
------------------------------------------------------------

/-
  Drawing `f` on a surface and `f'` on the one that is ahead of
  it leaves the second one ahead as far as before.
-/
def Raises
    (f f' : Surface α → Surface α) : Prop :=
  ∀ s : Surface α, f' (s.raise d) = (f s).raise d

namespace Raises

variable {d}
variable {f f' g g' : Surface α → Surface α}

theorem keep :
    Raises d (fun s => s) (fun s => s) :=
  fun _ => rfl

theorem comp
    (hFirst : Raises d f f')
    (hNext : Raises d g g') :
    Raises d (fun s => g (f s)) (fun s => g' (f' s)) := by
  intro s
  dsimp only
  rw [hFirst s, hNext (f s)]

theorem record
    (op : Operation α) :
    Raises d (Surface.record op)
      (Surface.record (op.raise d.groups)) :=
  fun s => (raise_record d s op).symm

/- An operation that names no group is the same on both. -/
theorem recordSame
    {op : Operation α}
    (hSame : op.raise d.groups = op) :
    Raises d (Surface.record op) (Surface.record op) := by
  have hRecord := record (d := d) op
  rwa [hSame] at hRecord

theorem setSource
    (pattern : Pattern α) :
    Raises d (Surface.setSource pattern)
      (Surface.setSource (pattern.raise d.groups)) :=
  record (.setSource pattern)

theorem save :
    Raises d Surface.save Surface.save := by
  intro s
  exact
    (raise_record d { s with saved := s.ctm :: s.saved } .save).symm

theorem restore :
    Raises d Surface.restore Surface.restore := by
  intro s
  unfold Surface.restore
  rw [raise_record, raise_unsave]
  rfl

theorem transform
    [Scalar α]
    (m : Matrix α) :
    Raises d (Surface.transform m) (Surface.transform m) := by
  intro s
  exact
    (raise_record d { s with ctm := m.mul s.ctm }
      (.transform m)).symm

theorem newPath :
    Raises d Surface.newPath Surface.newPath :=
  recordSame rfl

theorem clip :
    Raises d Surface.clip Surface.clip :=
  recordSame rfl

theorem takeAll
    (steps : List (PathStep α)) :
    Raises d (Surface.takeAll steps) (Surface.takeAll steps) := by
  intro s
  unfold Surface.takeAll
  induction steps generalizing s with
  | nil => rfl
  | cons step rest ih =>
      have hStep : (s.raise d).take step = (s.take step).raise d := by
        cases step with
        | draw segment => exact recordSame rfl s
        | rule r => exact recordSame rfl s
      rw [List.foldl_cons, List.foldl_cons, hStep]
      exact ih (s.take step)

theorem pushGroup :
    Raises d Surface.pushGroup Surface.pushGroup := by
  intro s
  unfold Surface.pushGroup
  rw [raise_record]
  simp [Surface.raise, Surface.record, Operation.raise,
    Nat.add_right_comm]

theorem closeGroup :
    Raises d Surface.closeGroup Surface.closeGroup := by
  intro s
  unfold Surface.closeGroup
  rw [raise_record, raise_unsave, topLayer_raise]
  simp [Surface.raise, Operation.raise, List.map_tail]

end Raises

/- The pattern of a closed group on both surfaces. -/
theorem popGroup_raise :
    (s.raise d).popGroup =
      (s.popGroup.1.raise d.groups, s.popGroup.2.raise d) := by
  unfold popGroup
  dsimp only
  rw [Raises.closeGroup s, topLayer_raise]
  rfl

namespace Raises

variable {d}
variable {f f' : Surface α → Surface α}

theorem popGroupToSource :
    Raises d Surface.popGroupToSource Surface.popGroupToSource := by
  intro s
  unfold Surface.popGroupToSource
  rw [popGroup_raise]
  exact setSource s.popGroup.1 s.popGroup.2

theorem onlyIf
    (condition : Bool)
    (hDraw : Raises d f f') :
    Raises d (FixedPage.onlyIf condition f)
      (FixedPage.onlyIf condition f') := by
  intro s
  cases condition with
  | false => rfl
  | true => exact hDraw s

------------------------------------------------------------
-- Groups
------------------------------------------------------------

theorem maskGroup
    (mask? : Option (Pattern α)) :
    Raises d (FixedPage.maskGroup mask?)
      (FixedPage.maskGroup (mask?.map (Pattern.raise d.groups))) := by
  cases mask? with
  | none => exact popGroupToSource
  | some mask => exact popGroupToSource.comp (record (.mask mask))

theorem paintGroup
    (opacity : α) :
    Raises d (FixedPage.paintGroup opacity)
      (FixedPage.paintGroup opacity) :=
  popGroupToSource.comp (record (.paintWithAlpha opacity))

theorem paintGroups
    (inMask inOpacity : Bool)
    (mask? : Option (Pattern α))
    (opacity : α) :
    Raises d (FixedPage.paintGroups inMask inOpacity mask? opacity)
      (FixedPage.paintGroups inMask inOpacity
        (mask?.map (Pattern.raise d.groups)) opacity) :=
  (onlyIf inMask (maskGroup mask?)).comp
    (onlyIf inOpacity (paintGroup opacity))

theorem dropGroups
    (inMask inOpacity : Bool) :
    Raises d (FixedPage.dropGroups (α := α) inMask inOpacity)
      (FixedPage.dropGroups inMask inOpacity) :=
  (onlyIf inMask closeGroup).comp (onlyIf inOpacity closeGroup)

end Raises

end Surface

end FixedPage
