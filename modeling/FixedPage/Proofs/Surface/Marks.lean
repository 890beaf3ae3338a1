import FixedPage.Proofs.Surface.Setting

/-
  This file follows what an element does to a surface itself,
  outside of the brackets of what lies inside of it. Each such
  step is a mark: the element turns what is drawn, opens a group,
  sets a fill rule, narrows the clip or draws a figure. Between
  two marks everything is enclosed in brackets, so the marks
  alone decide about the current transformation and about every
  setting.

  Main declarations:
    * `GeometryFrame.masked`
    * `Mark`
    * `Surface.Traced`
    * `Surface.Traced.ctm`
    * `Surface.Traced.saved`
    * `Surface.Traced.setting`
-/

namespace FixedPage

variable {α : Type}

------------------------------------------------------------
-- Turns
------------------------------------------------------------

namespace Surface

/-
  Where the mask of a path is applied: the path has been painted
  in a group, which is the source by now.
-/
def maskedPath
    [Scalar α]
    (path : PathBuilder α)
    (state : PathState α)
    (filled : Bool)
    (s : Surface α) : Surface α :=
  (paintCurrent state filled
    ((beginMask state path s).newPath.takeAll
      path.steps)).popGroupToSource

/- Painting a path with a mask ends with the mask. -/
theorem paintPath_masked
    [Scalar α]
    {state : PathState α}
    {mask : Pattern α}
    (path : PathBuilder α)
    (filled : Bool)
    (s : Surface α)
    (hMask : state.mask? = some mask) :
    paintPath path state filled s =
      (s.maskedPath path state filled).record (.mask mask) := by
  unfold paintPath endMask maskedPath
  rw [hMask]
  rfl

/-
  The surfaces have the same current transformation, and the
  same ones will be restored.
-/
structure Unturned
    (s s' : Surface α) : Prop where
  ctm : s'.ctm = s.ctm
  saved : s'.saved = s.saved

namespace Unturned

variable {s s' s'' : Surface α}

theorem refl
    (s : Surface α) :
    Unturned s s :=
  ⟨rfl, rfl⟩

theorem trans
    (hFirst : Unturned s s')
    (hNext : Unturned s' s'') :
    Unturned s s'' :=
  ⟨hNext.ctm.trans hFirst.ctm, hNext.saved.trans hFirst.saved⟩

theorem record
    (op : Operation α)
    (s : Surface α) :
    Unturned s (s.record op) :=
  ⟨rfl, rfl⟩

theorem takeAll
    (steps : List (PathStep α))
    (s : Surface α) :
    Unturned s (s.takeAll steps) := by
  induction steps generalizing s with
  | nil => exact refl s
  | cons step rest ih =>
      have hStep : Unturned s (s.take step) := by
        cases step <;> exact record _ s
      exact hStep.trans (ih (s.take step))

/- A group that is closed again. -/
theorem closeGroup
    (hInner : Unturned s.pushGroup s') :
    Unturned s s'.closeGroup := by
  have hSaved : s'.saved = s.ctm :: s.saved := hInner.saved
  have hClosed : Unturned s s'.unsave := by
    rw [unsave, hSaved]
    exact ⟨rfl, rfl⟩
  have hSame :
      ({ s' with groups := s'.groups.tail }.unsave).ctm =
          s'.unsave.ctm ∧
        ({ s' with groups := s'.groups.tail }.unsave).saved =
          s'.unsave.saved := by
    unfold unsave
    rw [hSaved]
    exact ⟨rfl, rfl⟩
  exact
    ⟨hSame.1.trans hClosed.ctm, hSame.2.trans hClosed.saved⟩

section

variable [Scalar α]

theorem clipTo
    (data : String)
    (s : Surface α) :
    Unturned s (s.clipTo data) := by
  have hDrawn :
      Unturned s (s.newPath.takeAll (PathData.trace data).steps) :=
    (record .newPath s).trans (takeAll _ _)
  unfold Surface.clipTo
  dsimp only
  split
  · exact hDrawn
  · exact hDrawn.trans (record .clip _)

theorem clipToAny
    (data? : Option String)
    (s : Surface α) :
    Unturned s (s.clipToAny data?) := by
  cases data? with
  | none => exact refl s
  | some data => exact clipTo data s

omit [Scalar α] in
theorem paintCurrent
    (state : PathState α)
    (filled : Bool)
    (s : Surface α) :
    Unturned s (paintCurrent state filled s) := by
  unfold FixedPage.paintCurrent
  dsimp only
  split <;> exact ⟨rfl, rfl⟩

omit [Scalar α] in
/- Drawing a path as the current one and painting it. -/
theorem drawCurrent
    (path : PathBuilder α)
    (state : PathState α)
    (filled : Bool)
    (s : Surface α) :
    Unturned s
      (FixedPage.paintCurrent state filled
        (s.newPath.takeAll path.steps)) :=
  ((record .newPath s).trans (takeAll _ _)).trans
    (paintCurrent state filled _)

/- Where a mask is applied, nothing is turned. -/
theorem maskedPath
    {state : PathState α}
    (path : PathBuilder α)
    (filled : Bool)
    (s : Surface α)
    (hMask : state.mask?.isSome = true) :
    Unturned s (s.maskedPath path state filled) := by
  have hGroup :
      ∀ u : Surface α,
        Unturned u
          (FixedPage.paintCurrent state filled
            (u.pushGroup.newPath.takeAll path.steps)).popGroupToSource := by
    intro u
    have hClosed := (drawCurrent path state filled u.pushGroup).closeGroup
    exact ⟨hClosed.ctm, hClosed.saved⟩
  unfold Surface.maskedPath beginMask
  cases hKnown : state.mask? with
  | none =>
      rw [hKnown] at hMask
      cases hMask
  | some mask =>
      cases state.maskExtents? path with
      | none => exact hGroup s
      | some box =>
          have hBox :
              Unturned s (s.newPath.rectangle box).clip :=
            (record .newPath s).trans
              ((takeAll _ _).trans (record .clip _))
          exact hBox.trans (hGroup _)

/- Painting a path turns nothing, with or without a mask. -/
theorem paintPath
    (path : PathBuilder α)
    (state : PathState α)
    (filled : Bool)
    (s : Surface α) :
    Unturned s (paintPath path state filled s) := by
  cases hMask : state.mask? with
  | none =>
      unfold FixedPage.paintPath beginMask endMask
      rw [hMask]
      exact drawCurrent path state filled s
  | some mask =>
      rw [Surface.paintPath_masked path filled s hMask]
      exact
        (maskedPath path filled s (by rw [hMask]; rfl)).trans
          (record _ _)

end

end Unturned

end Surface

------------------------------------------------------------
-- Figures
------------------------------------------------------------

namespace GeometryFrame

/- The figure that is drawn when it ends. -/
def drawn
    (g : GeometryFrame α) : PathBuilder α :=
  if g.state.isClosed then g.figure.push .close else g.figure

/- Where the mask of the figure is applied. -/
def masked
    [Scalar α]
    (g : GeometryFrame α)
    (s : Surface α) : Surface α :=
  s.maskedPath g.drawn g.state g.state.isFilled

end GeometryFrame

------------------------------------------------------------
-- Marks
------------------------------------------------------------

/- A step that an element takes on a surface itself. -/
inductive Mark (α : Type) where
  | turn
      (m : Matrix α)
  | group
  | rule
      (r : FillRule)
  | clip
      (data : String)
  | figure
      (g : GeometryFrame α)

namespace Mark

section

variable [Scalar α]

/- Takes the step. -/
def apply
    (mark : Mark α)
    (s : Surface α) : Surface α :=
  match mark with
  | .turn m => s.transform m
  | .group => s.pushGroup
  | .rule r => s.record (.setFillRule r)
  | .clip data => s.clipTo data
  | .figure g => (g.endFigure s).2

/- The transformation after a step, from the one before it. -/
def turned
    (c : Matrix α) :
    Mark α → Matrix α
| .turn m => m.mul c
| _ => c

omit [Scalar α] in
/- The transformation that closing the group of a step restores. -/
def kept
    (c : Matrix α) :
    Mark α → List (Matrix α)
| .group => [c]
| _ => []

theorem ctm_apply
    (mark : Mark α)
    (s : Surface α) :
    (mark.apply s).ctm = mark.turned s.ctm := by
  cases mark with
  | turn m => rfl
  | group => rfl
  | rule r => rfl
  | clip data => exact (Surface.Unturned.clipTo data s).ctm
  | figure g => exact (Surface.Unturned.paintPath _ g.state _ s).ctm

theorem saved_apply
    (mark : Mark α)
    (s : Surface α) :
    (mark.apply s).saved = mark.kept s.ctm ++ s.saved := by
  cases mark with
  | turn m => rfl
  | group => rfl
  | rule r => rfl
  | clip data => exact (Surface.Unturned.clipTo data s).saved
  | figure g => exact (Surface.Unturned.paintPath _ g.state _ s).saved

/- A step adds operations. -/
theorem written
    (mark : Mark α)
    (s : Surface α) :
    ∃ w, (mark.apply s).written = s.written ++ w := by
  cases mark with
  | turn m => exact ⟨_, Surface.written_transform m s⟩
  | group => exact ⟨_, Surface.written_pushGroup s⟩
  | rule r => exact ⟨_, Surface.written_record _ s⟩
  | clip data => exact ⟨_, Surface.written_clipTo data s⟩
  | figure g =>
      rcases written_paintPath _ g.state g.state.isFilled s with
        ⟨ends, -, hWritten⟩
      exact ⟨_, hWritten⟩

end

end Mark

/- The transformation after some steps. -/
def turnedBy
    [Scalar α]
    (c : Matrix α)
    (marks : List (Mark α)) : Matrix α :=
  marks.foldl Mark.turned c

/-
  The transformations that closing the groups of some steps
  restores, that of the last group first.
-/
def keptBy
    [Scalar α]
    (c : Matrix α) :
    List (Mark α) → List (Matrix α)
| [] => []
| mark :: rest => keptBy (mark.turned c) rest ++ mark.kept c

section

variable [Scalar α] (c : Matrix α)

@[simp] theorem turnedBy_nil :
    turnedBy c [] = c :=
  rfl

@[simp] theorem turnedBy_cons
    (mark : Mark α)
    (marks : List (Mark α)) :
    turnedBy c (mark :: marks) = turnedBy (mark.turned c) marks :=
  rfl

@[simp] theorem turnedBy_append
    (marks marks' : List (Mark α)) :
    turnedBy c (marks ++ marks') =
      turnedBy (turnedBy c marks) marks' :=
  List.foldl_append

/- Steps that only turn keep nothing. -/
@[simp] theorem keptBy_turns
    (turns : List (Matrix α)) :
    keptBy c (turns.map .turn) = [] := by
  induction turns generalizing c with
  | nil => rfl
  | cons m rest ih =>
      rw [List.map_cons, keptBy, ih]
      rfl

/- Nothing is kept exactly if no group is opened. -/
theorem keptBy_eq_nil_iff
    {marks : List (Mark α)} :
    keptBy c marks = [] ↔ .group ∉ marks := by
  induction marks generalizing c with
  | nil => simp [keptBy]
  | cons mark rest ih =>
      rw [keptBy, List.append_eq_nil_iff, ih]
      cases mark <;> simp [Mark.kept]

/- The groups that are opened later are closed first. -/
theorem keptBy_append
    (marks marks' : List (Mark α)) :
    keptBy c (marks ++ marks') =
      keptBy (turnedBy c marks) marks' ++ keptBy c marks := by
  induction marks generalizing c with
  | nil => simp [keptBy]
  | cons mark rest ih =>
      rw [List.cons_append, keptBy, ih, turnedBy_cons, keptBy,
        List.append_assoc]

end

------------------------------------------------------------
-- Traces
------------------------------------------------------------

section

variable [Scalar α]

/-
  The surface comes from `s` by some steps of an element, in this
  order. Whatever else is drawn is enclosed in brackets.
-/
inductive Surface.Traced
    (s : Surface α) :
    List (Mark α) → Surface α → Prop
| refl :
    Traced s [] s
| mark
    {marks : List (Mark α)}
    {t : Surface α}
    (hTraced : Traced s marks t)
    (mark : Mark α) :
    Traced s (marks ++ [mark]) (mark.apply t)
| enclosed
    {marks : List (Mark α)}
    {t t' : Surface α}
    (hTraced : Traced s marks t)
    (hLevel : Level false t t') :
    Traced s marks t'

namespace Surface.Traced

variable {s t u : Surface α} {marks marks' : List (Mark α)}

theorem trans
    (hFirst : Traced s marks t)
    (hNext : Traced t marks' u) :
    Traced s (marks ++ marks') u := by
  induction hNext with
  | refl => rwa [List.append_nil]
  | mark _ mark ih =>
      rw [← List.append_assoc]
      exact ih.mark mark
  | enclosed _ hLevel ih => exact ih.enclosed hLevel

/- A single step. -/
theorem single
    (mark : Mark α)
    (s : Surface α) :
    Traced s [mark] (mark.apply s) :=
  refl.mark mark

/- No step at all. -/
theorem of_level
    (hLevel : Level false s t) :
    Traced s [] t :=
  refl.enclosed hLevel

/- The steps decide about the current transformation. -/
theorem ctm
    (hTraced : Traced s marks t) :
    t.ctm = turnedBy s.ctm marks := by
  induction hTraced with
  | refl => rfl
  | mark _ mark ih =>
      rw [mark.ctm_apply, ih, turnedBy_append]
      rfl
  | enclosed _ hLevel ih => rw [hLevel.ctm rfl, ih]

/- The steps decide about what will be restored. -/
theorem saved
    (hTraced : Traced s marks t) :
    t.saved = keptBy s.ctm marks ++ s.saved := by
  induction hTraced with
  | refl => rfl
  | mark hTraced mark ih =>
      rw [mark.saved_apply, ih, keptBy_append, hTraced.ctm]
      simp [keptBy]
  | enclosed _ hLevel ih => rw [hLevel.saved, ih]

/- The steps add operations. -/
theorem written
    (hTraced : Traced s marks t) :
    ∃ w, t.written = s.written ++ w := by
  induction hTraced with
  | refl => exact ⟨[], (List.append_nil _).symm⟩
  | @mark _ t _ mark ih =>
      rcases ih with ⟨w, hWritten⟩
      rcases mark.written t with ⟨v, hStep⟩
      exact ⟨w ++ v, by rw [hStep, hWritten, List.append_assoc]⟩
  | enclosed _ hLevel ih =>
      rcases ih with ⟨w, hWritten⟩
      rcases hLevel.nested with ⟨v, hStep, -⟩
      refine ⟨w ++ v, ?_⟩
      rw [← List.append_assoc, ← hWritten]
      exact hStep

/-
  The steps decide about a setting: what each of them makes of a
  part of it, all of them make of it one after another.
-/
theorem setting
    {β γ : Type}
    {change : Operation α → β → β}
    (part : β → γ)
    (effect : Mark α → γ → γ)
    (hEffect :
      ∀ mark ∈ marks, ∀ s : Surface α,
        ∃ w,
          (mark.apply s).written = s.written ++ w ∧
            ∀ x : Setting β,
              part (x.takeAll change w).current =
                effect mark (part x.current))
    (hTraced : Traced s marks t) :
    ∃ w,
      t.written = s.written ++ w ∧
        ∀ x : Setting β,
          part (x.takeAll change w).current =
            marks.foldl (fun c mark => effect mark c)
              (part x.current) := by
  induction hTraced with
  | refl => exact ⟨[], by simp, fun x => rfl⟩
  | @mark _ t _ mark ih =>
      rcases ih fun mark hMem => hEffect mark (by simp [hMem]) with
        ⟨w, hWritten, hPart⟩
      rcases hEffect mark (by simp) t with ⟨v, hStep, hPart'⟩
      refine ⟨w ++ v, by rw [hStep, hWritten, List.append_assoc], ?_⟩
      intro x
      rw [Setting.takeAll_append, hPart', hPart, List.foldl_append]
      rfl
  | enclosed _ hLevel ih =>
      rcases ih hEffect with ⟨w, hWritten, hPart⟩
      rcases hLevel.enclosed rfl with ⟨v, hStep, hEnclosed⟩
      refine ⟨w ++ v, ?_, ?_⟩
      · rw [Surface.written, hStep]
        change Surface.written _ ++ v = _
        rw [hWritten, List.append_assoc]
      · intro x
        rw [Setting.takeAll_append,
          Setting.takeAll_enclosed change hEnclosed, hPart]

end Surface.Traced

end

end FixedPage
