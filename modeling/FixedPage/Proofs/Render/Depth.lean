import FixedPage.Proofs.Render.Finish
import FixedPage.Render.Page

/-
  This file proves that the number of visual brushes under way
  is the number of visual brushes on the stack, on top of those
  that were under way before, and that it stays within the limit.

  Main declarations:
    * `Stack.visuals`
    * `Stack.Counted`
    * `counted_invariant`
    * `storedBrush_sameDepth`
-/

namespace FixedPage

open Markup

variable {α : Type}

------------------------------------------------------------
-- Depths of states
------------------------------------------------------------

/- As many visual brushes are under way in both states. -/
def SameDepth
    (_ : Bool)
    (st st' : RenderState α) : Prop :=
  st'.visualDepth = st.visualDepth

instance [Scalar α] : Steady (SameDepth (α := α)) where
  refl _ _ := rfl
  trans hFirst hSecond := hSecond.trans hFirst
  weaken hSame := hSame
  record _ _ _ := rfl
  transform _ _ := rfl
  bracket _ _ hInner := hInner
  caches _ _ _ _ _ := rfl

/- Closing brackets ends no visual brush. -/
theorem Closes.sameDepth
    {bs : List Bracket}
    {st closed : RenderState α}
    (hCloses : Closes SameDepth bs st closed) :
    closed.visualDepth = st.visualDepth := by
  induction hCloses with
  | done hAfter => exact hAfter
  | leave hInner _ ih => exact ih.trans hInner

------------------------------------------------------------
-- Counted stacks
------------------------------------------------------------

namespace Stack

/- The number of visual brushes on a stack. -/
def visuals
    (entries : List (Entry α)) : Nat :=
  (entries.map fun entry => entry.frame.outline.visuals).foldr
    (· + ·) 0

@[simp] theorem visuals_nil :
    visuals ([] : List (Entry α)) = 0 :=
  rfl

@[simp] theorem visuals_cons
    (top : Entry α)
    (below : List (Entry α)) :
    visuals (top :: below) =
      top.frame.outline.visuals + visuals below :=
  rfl

/-
  The frames lie on each other as they may, and the visual
  brushes on the stack are under way on top of `base` others,
  within the limit.
-/
structure Counted
    (root : FrameKind)
    (limit base : Nat)
    (entries : List (Entry α))
    (st : RenderState α) : Prop where
  grown : WellGrown root entries
  depth : st.visualDepth = base + visuals entries
  bound : visuals entries = 0 ∨ st.visualDepth ≤ limit

/-
  A frame that takes content lies in a visual brush unless the
  bottom frame is the page.
-/
theorem WellGrown.visuals_pos
    {root : FrameKind}
    {top : Entry α}
    {below : List (Entry α)}
    (hRoot : root = .brush)
    (hGrown : WellGrown root (top :: below))
    (hKind : top.frame.kind ∈ [.page, .visual, .canvas]) :
    0 < visuals (top :: below) := by
  by_cases hVisual : top.frame.kind = .visual
  · have hOne : top.frame.outline.visuals = 1 := if_pos hVisual
    rw [visuals_cons, hOne]
    omega
  · induction below generalizing top with
    | nil =>
        cases hGrown with
        | root hBottom =>
            rw [hBottom, hRoot] at hKind
            exact absurd hKind (by decide)
    | cons parent below ih =>
        cases hGrown with
        | lie hBears hBelow =>
            have hParent :
                parent.frame.kind ∈ [.page, .visual, .canvas] := by
              revert hKind hVisual hBears
              cases top.frame.kind <;>
                cases parent.frame.kind <;> decide
            by_cases hParentVisual : parent.frame.kind = .visual
            · have hOne : parent.frame.outline.visuals = 1 :=
                if_pos hParentVisual
              rw [visuals_cons, visuals_cons, hOne]
              omega
            · have hBelowPos := ih hBelow hParent hParentVisual
              rw [visuals_cons]
              omega

namespace Counted

variable {root : FrameKind} {limit base : Nat}
variable {top : Entry α} {below : List (Entry α)}
variable {st st' : RenderState α}

/- Only the number of visual brushes under way matters. -/
theorem sameDepth
    {entries : List (Entry α)}
    (hCounted : Counted root limit base entries st)
    (hSame : st'.visualDepth = st.visualDepth) :
    Counted root limit base entries st' :=
  ⟨hCounted.grown, hSame ▸ hCounted.depth, hSame ▸ hCounted.bound⟩

/- The top frame may change but for its kind. -/
theorem retop
    {frame' : Frame α}
    (hCounted : Counted root limit base (top :: below) st)
    (hKind : frame'.kind = top.frame.kind) :
    Counted root limit base (⟨frame', top.owner⟩ :: below) st := by
  have hVisuals :
      frame'.outline.visuals = top.frame.outline.visuals := by
    unfold FrameOutline.visuals
    rw [show frame'.outline.kind = top.frame.outline.kind from hKind]
  have hDepth := hCounted.depth
  have hBound := hCounted.bound
  refine ⟨hCounted.grown.replace hKind, ?_, ?_⟩
  · simpa only [visuals_cons, hVisuals] using hDepth
  · simpa only [visuals_cons, hVisuals] using hBound

/- A frame that is no visual brush is put on the stack. -/
theorem push
    {child : Entry α}
    (hCounted : Counted root limit base (top :: below) st)
    (hBears : child.frame.kind ∈ top.frame.kind.bears)
    (hVisual : child.frame.kind ≠ .visual) :
    Counted root limit base (child :: top :: below) st := by
  have hNone : child.frame.outline.visuals = 0 := if_neg hVisual
  have hDepth := hCounted.depth
  have hBound := hCounted.bound
  refine ⟨hCounted.grown.push hBears, ?_, ?_⟩
  · rwa [visuals_cons, hNone, Nat.zero_add]
  · rwa [visuals_cons, hNone, Nat.zero_add]

/- A frame that is released leaves those below counted. -/
theorem released
    (hCounted : Counted root limit base (top :: below) st)
    (hState :
      st'.visualDepth =
        st.visualDepth - top.frame.outline.visuals) :
    Counted root limit base below st' := by
  have hDepth := hCounted.depth
  have hBound := hCounted.bound
  rw [visuals_cons] at hDepth hBound
  refine ⟨hCounted.grown.tail, ?_, ?_⟩
  · omega
  · omega

/- An element that starts keeps the count. -/
theorem started
    [Scalar α]
    {frame : Frame α}
    {child? : Option (Frame α)}
    (hCounted : Counted root limit base (top :: below) st)
    (hStarted :
      top.frame.Started SameDepth limit st frame child? st')
    (depth : Nat) :
    Counted root limit base
      ((child?.map fun child => ⟨child, depth⟩).toList
        ++ ⟨frame, top.owner⟩ :: below) st' := by
  cases hStarted with
  | steady hSame hState =>
      exact
        (hCounted.retop (congrArg FrameOutline.kind hSame)).sameDepth
          hState
  | loaded _ hSame hState =>
      rcases hState with ⟨scope, _, rfl⟩
      exact
        (hCounted.retop (congrArg FrameOutline.kind hSame)).sameDepth
          rfl
  | @bare _ child _ hSame hBears _ hKind hState =>
      have hKept := congrArg FrameOutline.kind hSame
      refine ((hCounted.retop hKept).push ?_ ?_).sameDepth hState
      · exact (congrArg FrameKind.bears hKept) ▸ hBears
      · revert hKind
        cases child.kind <;> decide
  | @drawing _ child _ hSame hBears hOpened =>
      have hKept := congrArg FrameOutline.kind hSame
      rcases hOpened.state with ⟨read, hRead, rfl⟩
      have hDraws := hOpened.draws
      refine ((hCounted.retop hKept).push ?_ ?_).sameDepth hRead
      · exact (congrArg FrameKind.bears hKept) ▸ hBears
      · revert hDraws
        cases child.kind <;> decide
  | visual v hKind hLimit =>
      have hDepth := hCounted.depth
      refine ⟨hCounted.grown.push ?_, ?_, .inr hLimit⟩
      · change FrameKind.visual ∈ top.frame.kind.bears
        rw [hKind]
        decide
      · change st.visualDepth + 1 = base + (1 + visuals (top :: below))
        omega
  | resources hBears hOutline =>
      have hKept := congrArg FrameOutline.kind hOutline
      refine ((hCounted.retop hKept).push ?_ ?_).sameDepth rfl
      · exact (congrArg FrameKind.bears hKept) ▸ hBears
      · simp

/- An element that fails to start keeps the count. -/
theorem refused
    (hCounted : Counted root limit base (top :: below) st)
    (hRefused : top.frame.Refused SameDepth st st') :
    Counted root limit base (top :: below) st' := by
  rcases hRefused with hState | ⟨_, scope, _, rfl⟩
  · exact hCounted.sameDepth hState
  · exact hCounted.sameDepth rfl

/- The end of a child keeps the count. -/
theorem received
    {frame : Frame α}
    {product : Product α}
    (hCounted : Counted root limit base (top :: below) st)
    (hReceived :
      top.frame.Received SameDepth product st frame st') :
    Counted root limit base (⟨frame, top.owner⟩ :: below) st' := by
  cases hReceived with
  | steady hSame hState =>
      exact
        (hCounted.retop (congrArg FrameOutline.kind hSame)).sameDepth
          hState
  | masked _ _ hMasked =>
      exact
        (hCounted.retop
          (by simp only [Frame.kind, hMasked])).sameDepth rfl
  | visual v _ _ hSame =>
      exact
        (hCounted.retop (congrArg FrameOutline.kind hSame)).sameDepth
          rfl
  | ended _ hOutline =>
      exact
        (hCounted.retop
          (by simp only [Frame.kind, hOutline])).sameDepth rfl
  | stored _ hSame hState =>
      rcases hState with ⟨scope, _, rfl⟩
      exact
        (hCounted.retop (congrArg FrameOutline.kind hSame)).sameDepth
          rfl

end Counted

end Stack

------------------------------------------------------------
-- Runs
------------------------------------------------------------

section

variable [Scalar α]

/- A frame that is finished has its visual brush ended. -/
theorem Frame.finish_depth
    {env : Environment α}
    {frame : Frame α}
    {st st' : RenderState α}
    {product : Product α}
    (hFinish : (frame.finish env).perform st = (.ok product, st')) :
    st'.visualDepth = st.visualDepth - frame.outline.visuals := by
  have hOutcome :=
    Frame.finish_outcome (R := SameDepth) env frame st
  rw [hFinish] at hOutcome
  by_cases hKind : frame.kind = .visual
  · simp only [Frame.Finish, if_pos hKind] at hOutcome
    rw [hOutcome.2]
    rfl
  · simp only [Frame.Finish, if_neg hKind] at hOutcome
    rcases hOutcome.2 with ⟨closed, hCloses, rfl⟩
    change closed.visualDepth - _ = _
    rw [hCloses.sameDepth]

/- A frame that is given up has its visual brush ended. -/
theorem Frame.abort_depth
    (frame : Frame α)
    (st : RenderState α) :
    (frame.abort st).visualDepth =
      st.visualDepth - frame.outline.visuals := by
  rcases Frame.abort_released (R := SameDepth) frame st with
    ⟨closed, hCloses, hState⟩
  rw [hState]
  change closed.visualDepth - _ = _
  rw [hCloses.sameDepth]

/- Every step of a run keeps the count. -/
theorem counted_invariant
    {env : Environment α}
    {handler : StartHandler α}
    (hStart :
      ∀ (e : Element) (frame : Frame α) (st : RenderState α),
        frame.Outcome SameDepth env.options.maxVisualDepth st
          ((handler frame e).perform st))
    (root : FrameKind)
    (base : Nat) :
    Stack.Invariant env handler
      (Stack.Counted root env.options.maxVisualDepth base) where
  start := by
    intro top below depth e st hCounted
    have hOutcome := hStart e top.frame st
    generalize (handler top.frame e).perform st = outcome
      at hOutcome ⊢
    rcases outcome with ⟨fault | ⟨frame, child?⟩, st'⟩
    · exact hCounted.refused hOutcome
    · exact hCounted.started hOutcome depth
  child := by
    intro top below name st hCounted
    exact
      hCounted.received
        (top.frame.endChild_received env name .none st)
  root := by
    intro top st st' product hCounted hFinish
    exact hCounted.released (Frame.finish_depth hFinish)
  hand := by
    intro top parent below name st st' product hCounted hFinish
    exact
      (hCounted.released (Frame.finish_depth hFinish)).received
        (parent.frame.endChild_received env name product st')
  spoil := by
    intro top below st st' fault hCounted hFinish
    have hOutcome :=
      Frame.finish_outcome (R := SameDepth) env top.frame st
    rw [hFinish] at hOutcome
    exact hCounted.sameDepth hOutcome.2
  abort := by
    intro top below st hCounted
    exact hCounted.released (top.frame.abort_depth st)

omit [Scalar α] in
/- The stack that a root frame starts with is counted. -/
theorem Stack.Counted.start
    {root : FrameKind}
    (limit : Nat)
    (frame : Frame α)
    (owner : Nat)
    (hKind : frame.kind = root)
    (hVisual : root ≠ .visual)
    (st : RenderState α) :
    Stack.Counted root limit st.visualDepth [⟨frame, owner⟩] st := by
  have hNone : frame.outline.visuals = 0 :=
    if_neg fun hIs => hVisual (hKind ▸ hIs)
  exact
    ⟨.root hKind, by simp [Stack.visuals_cons, hNone],
      .inl (by simp [Stack.visuals_cons, hNone])⟩

/- The start of an element of a page keeps the count. -/
theorem countedElement_invariant
    (env : Environment α)
    {lookup : BrushLookup α}
    (hLookup : ∀ key, (lookup key).Keeps (SameDepth true))
    (root : FrameKind)
    (base : Nat) :
    Stack.Invariant env (startElement env lookup)
      (Stack.Counted root env.options.maxVisualDepth base) :=
  counted_invariant (startElement_started env hLookup) root base

/-
  A stored brush is read with as many visual brushes under way
  afterwards as before.
-/
theorem storedBrush_sameDepth
    (env : Environment α)
    (budget : Nat)
    (key : String) :
    Action.Keeps (SameDepth true) (storedBrush env budget key) := by
  induction budget generalizing key with
  | zero => exact .fail _
  | succ budget ih =>
      unfold storedBrush
      refine .bind ?_ fun markup => .bind ?_ fun product => ?_
      · intro st
        unfold Action.resource
        rw [Action.perform_ofEffect]
        cases st.scope.get? key <;> rfl
      · apply runFragment_keeps
        intro rest st
        exact
          ((countedElement_invariant env ih .brush
            st.visualDepth).runOpenFragment rest
            (.ofOpenElement (.brush none)) st
            (.start _ (.brush none) 1 rfl (by simp) st)).depth
      · cases product <;> exact .pure _

end

end FixedPage
