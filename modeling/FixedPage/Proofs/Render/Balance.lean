import FixedPage.Proofs.Render.Finish
import FixedPage.Render.Page

/-
  This file proves that rendering a page leaves no bracket open
  on the surface and closes none that it has not opened, however
  the rendering ends.

  On the way, the surface is inside of the brackets that the
  frames on the stack hold open. The content of a stored brush
  is drawn inside of the brackets of the element that refers to
  it, so the brush is on their level when it is read.

  Main declarations:
    * `Stack.Balanced`
    * `balanced_invariant`
    * `storedBrush_onLevel`
    * `renderItems_properlyNested`
-/

namespace FixedPage

open Markup

variable {α : Type}

------------------------------------------------------------
-- Levels of states
------------------------------------------------------------

/- The surfaces of two states are on one level. -/
def OnLevel
    (turned : Bool)
    (st st' : RenderState α) : Prop :=
  Surface.Level turned st.surface st'.surface

instance [Scalar α] : Steady (OnLevel (α := α)) where
  refl t st := .refl t st.surface
  trans := .trans
  weaken := .weaken
  record st _ hPlain := .record st.surface hPlain
  transform st m := .transform st.surface m
  bracket _ b hInner := (b.leave_level hInner).weaken
  caches _ st _ _ _ := .refl _ st.surface

------------------------------------------------------------
-- Balanced stacks
------------------------------------------------------------

/- Brackets that the frames of a stack hold open. -/
def Stack.brackets
    (entries : List (Entry α)) : List Bracket :=
  entries.flatMap fun entry => entry.frame.outline.brackets

/-
  The frames lie on each other as they may, and since `base` the
  surface has opened the brackets that they hold open.
-/
structure Stack.Balanced
    (root : FrameKind)
    (base : Surface α)
    (entries : List (Entry α))
    (st : RenderState α) : Prop where
  grown : WellGrown root entries
  consistent : ∀ entry ∈ entries, entry.frame.Consistent
  inside :
    Surface.Inside false base (Stack.brackets entries) st.surface

namespace Stack

variable {root : FrameKind} {base : Surface α}
variable {top : Entry α} {below : List (Entry α)}
variable {st st' : RenderState α}

/-
  A frame that turns the surface is in a bracket: it has saved,
  or it is a geometry on a path that has.
-/
theorem WellGrown.brackets_ne_nil
    (hRoot : root ≠ .geometry)
    (hGrown : WellGrown root (top :: below))
    (hTurns : top.frame.kind.turns = true) :
    brackets (top :: below) ≠ [] := by
  have hDraws :
      ∀ (entry : Entry α) (rest : List (Entry α)),
        entry.frame.kind.draws = true →
          brackets (entry :: rest) ≠ [] := by
    intro entry rest hDraws
    simp [brackets, FrameOutline.brackets_of_draws hDraws]
  cases hKind : top.frame.kind.draws with
  | true => exact hDraws top below hKind
  | false =>
      have hGeometry : top.frame.kind = .geometry := by
        revert hTurns hKind
        cases top.frame.kind <;> decide
      cases hGrown with
      | root hBottom => exact absurd (hBottom ▸ hGeometry) hRoot
      | @lie _ parent rest hBears _ =>
          have hParent : parent.frame.kind = .path := by
            rw [hGeometry] at hBears
            revert hBears
            cases parent.frame.kind <;> decide
          have hOpen := hDraws parent rest (by rw [hParent]; rfl)
          simp only [brackets, List.flatMap_cons] at hOpen ⊢
          exact fun hNil => hOpen (List.append_eq_nil_iff.mp hNil).2

namespace Balanced

/- A step of the top frame stays inside of the same brackets. -/
theorem step
    (hRoot : root ≠ .geometry)
    (hBalanced : Balanced root base (top :: below) st)
    (hStep : OnLevel top.frame.kind.turns st st') :
    Balanced root base (top :: below) st' where
  grown := hBalanced.grown
  consistent := hBalanced.consistent
  inside := by
    cases hTurns : top.frame.kind.turns with
    | false =>
        rw [hTurns] at hStep
        exact hBalanced.inside.draw hStep
    | true =>
        rw [hTurns] at hStep
        exact
          hBalanced.inside.turn
            (.inl (hBalanced.grown.brackets_ne_nil hRoot hTurns))
            hStep

/- What happens when an element starts is such a step. -/
theorem stepEarly
    (hRoot : root ≠ .geometry)
    (hBalanced : Balanced root base (top :: below) st)
    (hStep : OnLevel top.frame.kind.turnsEarly st st') :
    Balanced root base (top :: below) st' := by
  apply hBalanced.step hRoot
  cases hEarly : top.frame.kind.turnsEarly with
  | false =>
      rw [hEarly] at hStep
      exact hStep.weaken
  | true =>
      rw [hEarly] at hStep
      rwa [FrameKind.turns_of_turnsEarly hEarly]

/- The surface decides, not the rest of the state. -/
theorem sameSurface
    {entries : List (Entry α)}
    (hBalanced : Balanced root base entries st)
    (hSurface : st'.surface = st.surface) :
    Balanced root base entries st' :=
  ⟨hBalanced.grown, hBalanced.consistent,
    hSurface ▸ hBalanced.inside⟩

/-
  The top frame may change but for its kind, its brackets and
  what its mask asks for.
-/
theorem retop
    {frame' : Frame α}
    (hBalanced : Balanced root base (top :: below) st)
    (hKind : frame'.kind = top.frame.kind)
    (hConsistent : frame'.Consistent)
    (hBrackets :
      frame'.outline.brackets = top.frame.outline.brackets) :
    Balanced root base (⟨frame', top.owner⟩ :: below) st where
  grown := hBalanced.grown.replace hKind
  consistent := by
    intro entry hEntry
    rcases List.mem_cons.mp hEntry with rfl | hBelow
    · exact hConsistent
    · exact hBalanced.consistent entry (.tail _ hBelow)
  inside := by
    have hInside := hBalanced.inside
    simp only [Stack.brackets, List.flatMap_cons] at hInside ⊢
    rwa [hBrackets]

/- The top frame may change if it keeps its outline. -/
theorem sameOutline
    {frame' : Frame α}
    (hBalanced : Balanced root base (top :: below) st)
    (hSame : frame'.outline = top.frame.outline) :
    Balanced root base (⟨frame', top.owner⟩ :: below) st := by
  have hConsistent := hBalanced.consistent top (.head _)
  refine hBalanced.retop ?_ ?_ ?_
  · simp only [Frame.kind, hSame]
  · simpa only [Frame.Consistent, hSame] using hConsistent
  · rw [hSame]

/- The number of its dictionaries may change, too. -/
theorem sameBrackets
    {frame' : Frame α}
    {n : Nat}
    (hBalanced : Balanced root base (top :: below) st)
    (hOutline :
      frame'.outline = { top.frame.outline with dictionaries := n }) :
    Balanced root base (⟨frame', top.owner⟩ :: below) st := by
  have hConsistent := hBalanced.consistent top (.head _)
  refine hBalanced.retop ?_ ?_ ?_
  · simp only [Frame.kind, hOutline]
  · simpa only [Frame.Consistent, hOutline] using hConsistent
  · rw [hOutline]
    rfl

/- A frame with its brackets is put on one that may bear it. -/
theorem push
    {child : Entry α}
    (hBalanced : Balanced root base (top :: below) st)
    (hBears : child.frame.kind ∈ top.frame.kind.bears)
    (hConsistent : child.frame.Consistent)
    (hInside :
      Surface.Inside false base
        (child.frame.outline.brackets
          ++ Stack.brackets (top :: below)) st'.surface) :
    Balanced root base (child :: top :: below) st' where
  grown := hBalanced.grown.push hBears
  consistent := by
    intro entry hEntry
    rcases List.mem_cons.mp hEntry with rfl | hBelow
    · exact hConsistent
    · exact hBalanced.consistent entry hBelow
  inside := hInside

/- A frame without brackets is put on one that may bear it. -/
theorem pushBare
    {child : Entry α}
    (hBalanced : Balanced root base (top :: below) st)
    (hBears : child.frame.kind ∈ top.frame.kind.bears)
    (hBare : child.frame.outline = .bare child.frame.kind)
    (hDraws : child.frame.kind.draws = false)
    (hVisual : child.frame.kind ≠ .visual) :
    Balanced root base (child :: top :: below) st := by
  refine hBalanced.push hBears ?_ ?_
  · rw [Frame.Consistent, hBare]
    rfl
  · rw [hBare]
    simpa [FrameOutline.brackets, FrameOutline.bare, hDraws, hVisual]
      using hBalanced.inside

end Balanced

end Stack

------------------------------------------------------------
-- Steps of a run
------------------------------------------------------------

section

variable {base : Surface α} {bs rest : List Bracket}

/- Closed brackets are left. -/
theorem Closes.inside
    {st closed : RenderState α}
    (hCloses : Closes OnLevel bs st closed)
    (hInside :
      Surface.Inside false base (bs ++ rest) st.surface) :
    Surface.Inside false base rest closed.surface := by
  induction hCloses with
  | done hAfter => exact hInside.draw hAfter
  | leave hInner _ ih =>
      have hTurned :=
        hInside.turn (.inl (List.cons_ne_nil _ _)) hInner
      exact ih hTurned.leave

/- The groups of an element are entered. -/
theorem openGroups_inside
    (o : FrameOutline)
    {s : Surface α}
    (hInside : Surface.Inside false base bs s) :
    Surface.Inside false base (o.groups ++ bs) (openGroups o s) := by
  unfold openGroups FrameOutline.groups
  cases o.inMask <;> cases o.inOpacity
  · exact hInside
  · exact hInside.enter .group
  · exact hInside.enter .group
  · exact (hInside.enter .group).enter .group

/- The brackets of an element that draws are entered. -/
theorem Frame.Opened.inside
    [Scalar α]
    {child : Frame α}
    {st st' : RenderState α}
    (hOpened : child.Opened OnLevel st st')
    (hInside : Surface.Inside false base bs st.surface) :
    Surface.Inside false base (child.outline.brackets ++ bs)
      st'.surface := by
  rcases hOpened.state with ⟨read, hRead, rfl⟩
  rw [FrameOutline.brackets_of_draws hOpened.draws,
    List.append_assoc]
  exact
    openGroups_inside child.outline
      ((hInside.enter .save).turn (.inl (List.cons_ne_nil _ _)) hRead)

/- The content of a visual brush is in a save and in a group. -/
theorem VisualBrush.openGroup_inside
    [Scalar α]
    (v : VisualBrush α)
    {s : Surface α}
    (hInside : Surface.Inside false base bs s) :
    Surface.Inside false base ([.group, .save] ++ bs)
      (v.openGroup s) := by
  have hGroup :
      Surface.Inside false base (.group :: .save :: bs)
        ((s.save.newPath.rectangle
          ⟨0, 0, v.width, v.height⟩).clip.pushGroup) :=
    (((hInside.enter .save).turn (.inl (List.cons_ne_nil _ _))
      (((Surface.Level.newPath _).trans (.rectangle _ _)).trans
        (.clip _)))).enter .group
  unfold openGroup fitViewbox
  dsimp only
  split
  · exact hGroup
  · exact
      (hGroup.turn (.inl (List.cons_ne_nil _ _))
        (.transform _ _)).turn
          (.inl (List.cons_ne_nil _ _)) (.transform _ _)

end

namespace Stack.Balanced

variable {root : FrameKind} {base : Surface α}
variable {top : Entry α} {below : List (Entry α)}
variable {st st' : RenderState α}

/- An element that starts keeps the balance. -/
theorem started
    [Scalar α]
    {limit : Nat}
    {frame : Frame α}
    {child? : Option (Frame α)}
    (hRoot : root ≠ .geometry)
    (hBalanced : Balanced root base (top :: below) st)
    (hStarted :
      top.frame.Started OnLevel limit st frame child? st')
    (depth : Nat) :
    Balanced root base
      ((child?.map fun child => ⟨child, depth⟩).toList
        ++ ⟨frame, top.owner⟩ :: below) st' := by
  cases hStarted with
  | steady hSame hState =>
      exact (hBalanced.stepEarly hRoot hState).sameOutline hSame
  | loaded _ hSame hState =>
      rcases hState with ⟨scope, _, rfl⟩
      exact (hBalanced.sameOutline hSame).sameSurface rfl
  | @bare _ child _ hSame hBears hBare hKind hState =>
      have hTop := (hBalanced.stepEarly hRoot hState).sameOutline hSame
      refine hTop.pushBare ?_ hBare ?_ ?_
      · simpa only [Frame.kind, hSame] using hBears
      · revert hKind
        cases child.kind <;> decide
      · revert hKind
        cases child.kind <;> decide
  | @drawing _ child _ hSame hBears hOpened =>
      have hTop := hBalanced.sameOutline hSame
      refine hTop.push ?_ hOpened.consistent ?_
      · simpa only [Frame.kind, hSame] using hBears
      · exact hOpened.inside hTop.inside
  | visual v hKind _ =>
      refine hBalanced.push ?_ rfl ?_
      · change FrameKind.visual ∈ top.frame.kind.bears
        rw [hKind]
        decide
      · exact v.openGroup_inside hBalanced.inside
  | resources hBears hOutline =>
      have hTop := hBalanced.sameBrackets hOutline
      have hBears' : .resources ∈ frame.kind.bears := by
        simpa only [Frame.kind, hOutline] using hBears
      have hPushed :
          Balanced root base
            (⟨.resources false, depth⟩ :: ⟨frame, top.owner⟩
              :: below) st :=
        hTop.pushBare hBears' rfl rfl (by simp)
      exact hPushed.sameSurface rfl

/- An element that fails to start keeps the balance. -/
theorem refused
    (hRoot : root ≠ .geometry)
    (hBalanced : Balanced root base (top :: below) st)
    (hRefused : top.frame.Refused OnLevel st st') :
    Balanced root base (top :: below) st' := by
  rcases hRefused with hState | ⟨_, scope, _, rfl⟩
  · exact hBalanced.stepEarly hRoot hState
  · exact hBalanced.sameSurface rfl

/- A product that is no visual brush keeps the balance. -/
theorem received
    {frame : Frame α}
    {product : Product α}
    (hRoot : root ≠ .geometry)
    (hBalanced : Balanced root base (top :: below) st)
    (hProduct : ∀ v, product ≠ .visual v)
    (hReceived :
      top.frame.Received OnLevel product st frame st') :
    Balanced root base (⟨frame, top.owner⟩ :: below) st' := by
  cases hReceived with
  | steady hSame hState =>
      exact (hBalanced.step hRoot hState).sameOutline hSame
  | masked hDraws hFirst hMasked =>
      have hConsistent := hBalanced.consistent top (.head _)
      have hNoGroup : top.frame.outline.inMask = false :=
        hConsistent.trans hFirst
      refine ⟨?_, ?_, ?_⟩
      · apply hBalanced.grown.replace
        simp only [Frame.kind, hMasked]
      · intro entry hEntry
        rcases List.mem_cons.mp hEntry with rfl | hBelow
        · simp only [Frame.Consistent, hMasked]
        · exact hBalanced.consistent entry (.tail _ hBelow)
      · have hEntered := hBalanced.inside.enter .group
        simp only [brackets, List.flatMap_cons] at hEntered ⊢
        have hOpen :
            frame.outline.brackets =
              .group :: top.frame.outline.brackets := by
          rw [FrameOutline.brackets_of_draws hDraws, hMasked]
          rw [FrameOutline.brackets_of_draws
            (by simpa only [Frame.kind] using hDraws)]
          simp [FrameOutline.groups, hNoGroup]
        rw [hOpen]
        exact hEntered
  | visual v hVisual _ _ => exact absurd hVisual (hProduct v)
  | ended _ hOutline =>
      exact (hBalanced.sameBrackets hOutline).sameSurface rfl
  | stored _ hSame hState =>
      rcases hState with ⟨scope, _, rfl⟩
      exact (hBalanced.sameOutline hSame).sameSurface rfl

/- A frame that is released leaves the balance of those below. -/
theorem released
    (hBalanced : Balanced root base (top :: below) st)
    (hReleased : top.frame.Released OnLevel st st') :
    Balanced root base below st' := by
  rcases hReleased with ⟨closed, hCloses, rfl⟩
  exact
    ⟨hBalanced.grown.tail,
      fun entry hEntry =>
        hBalanced.consistent entry (.tail _ hEntry),
      hCloses.inside hBalanced.inside⟩

/- A visual brush that ends closes what it has opened. -/
theorem handVisual
    [Scalar α]
    {env : Environment α}
    {parent : Entry α}
    {product : Product α}
    (name : String)
    (hBalanced : Balanced root base (top :: parent :: below) st)
    (hKind : top.frame.kind = .visual)
    (hProduct : ∃ v, product = .visual v)
    (hState : st' = st.release top.frame.outline) :
    Balanced root base
      (⟨(parent.frame.endChild env name product st').1,
        parent.owner⟩ :: below)
      (parent.frame.endChild env name product st').2 := by
  rcases hProduct with ⟨v, rfl⟩
  have hParent : parent.frame.kind = .brush := by
    cases hBalanced.grown with
    | lie hBears _ =>
        rw [hKind] at hBears
        revert hBears
        cases parent.frame.kind <;> decide
  rcases parent with ⟨frame, owner⟩
  rcases Frame.eq_brush_of_kind hParent with ⟨pattern?, hFrame⟩
  cases hFrame
  have hReleased :
      top.frame.Released OnLevel st
        ((st.draw fun s => s.closeGroup.restore).release
          top.frame.outline) := by
    refine ⟨_, ?_, rfl⟩
    have hBrackets : top.frame.outline.brackets = [.group, .save] := by
      unfold FrameOutline.brackets
      rw [show top.frame.outline.kind = .visual from hKind]
      rfl
    rw [hBrackets]
    exact
      .leave (Surface.Level.refl true st.surface)
        (.leave (Surface.Level.refl true _)
          (.done (Surface.Level.refl false _)))
  have hBelow := hBalanced.released hReleased
  subst hState
  refine (hBelow.sameOutline ?_).sameSurface ?_
  · rfl
  · rfl

end Stack.Balanced

------------------------------------------------------------
-- Runs
------------------------------------------------------------

section

variable [Scalar α]

/- Every step of a run keeps the balance. -/
theorem balanced_invariant
    (env : Environment α)
    {lookup : BrushLookup α}
    (hLookup : ∀ key, (lookup key).Keeps (OnLevel true))
    (root : FrameKind)
    (hRoot : root ≠ .geometry)
    (hVisual : root ≠ .visual)
    (base : Surface α) :
    Stack.Invariant env (startElement env lookup)
      (Stack.Balanced root base) where
  start := by
    intro top below depth e st hBalanced
    have hOutcome :=
      startElement_started env hLookup e top.frame st
    generalize
      (startElement env lookup top.frame e).perform st = outcome
      at hOutcome ⊢
    rcases outcome with ⟨fault | ⟨frame, child?⟩, st'⟩
    · exact hBalanced.refused hRoot hOutcome
    · exact hBalanced.started hRoot hOutcome depth
  child := by
    intro top below name st hBalanced
    exact
      hBalanced.received hRoot (by simp)
        (top.frame.endChild_received env name .none st)
  root := by
    intro top st st' product hBalanced hFinish
    have hOutcome :=
      Frame.finish_outcome (R := OnLevel) env top.frame st
    have hKind : top.frame.kind ≠ .visual := by
      cases hBalanced.grown with
      | root hBottom => exact hBottom ▸ hVisual
    rw [hFinish] at hOutcome
    simp only [Frame.Finish, if_neg hKind] at hOutcome
    exact hBalanced.released hOutcome.2
  hand := by
    intro top parent below name st st' product hBalanced hFinish
    have hOutcome :=
      Frame.finish_outcome (R := OnLevel) env top.frame st
    rw [hFinish] at hOutcome
    by_cases hKind : top.frame.kind = .visual
    · simp only [Frame.Finish, if_pos hKind] at hOutcome
      exact
        hBalanced.handVisual name hKind hOutcome.1 hOutcome.2
    · simp only [Frame.Finish, if_neg hKind] at hOutcome
      exact
        (hBalanced.released hOutcome.2).received hRoot hOutcome.1
          (parent.frame.endChild_received env name product st')
  spoil := by
    intro top below st st' fault hBalanced hFinish
    have hOutcome :=
      Frame.finish_outcome (R := OnLevel) env top.frame st
    rw [hFinish] at hOutcome
    apply hBalanced.step hRoot
    rcases hOutcome with ⟨hKind, hState⟩
    revert hKind
    cases top.frame.kind <;> intro hKind
    all_goals first
      | exact hState
      | simp at hKind
  abort := by
    intro top below st hBalanced
    exact hBalanced.released (top.frame.abort_released st)

omit [Scalar α] in
/- The stack that a root frame starts with is balanced. -/
theorem Stack.Balanced.start
    {root : FrameKind}
    (frame : Frame α)
    (owner : Nat)
    (hKind : frame.kind = root)
    (hConsistent : frame.Consistent)
    (hBrackets : frame.outline.brackets = [])
    (st : RenderState α) :
    Stack.Balanced root st.surface [⟨frame, owner⟩] st where
  grown := .root hKind
  consistent := by simpa using hConsistent
  inside := by
    simp only [Stack.brackets, List.flatMap_cons, hBrackets,
      List.flatMap_nil, List.append_nil]
    exact .level (.refl false st.surface)

/-
  A stored brush is read on one level, whatever its markup. By
  induction on the budget, so are the brushes that it refers to.
-/
theorem storedBrush_onLevel
    (env : Environment α)
    (budget : Nat)
    (key : String) :
    Action.Keeps (OnLevel false) (storedBrush env budget key) := by
  induction budget generalizing key with
  | zero => exact .fail _
  | succ budget ih =>
      unfold storedBrush
      refine .bind ?_ fun markup => .bind ?_ fun product => ?_
      · intro st
        unfold Action.resource
        rw [Action.perform_ofEffect]
        cases st.scope.get? key <;> exact .refl false st.surface
      · apply runFragment_keeps
        intro rest st
        have hDone :=
          (balanced_invariant env (fun key => (ih key).weaken)
            .brush (by decide) (by decide) st.surface).runOpenFragment rest
            (.ofOpenElement (.brush none)) st
            (.start (.brush none) 1 rfl rfl rfl st)
        exact hDone.inside.level_of_nil
      · cases product <;> exact .pure _

/- The events of a page are rendered on one level. -/
theorem renderItems_level
    (env : Environment α)
    (items : List Item)
    (st : RenderState α) :
    Surface.Level false st.surface
      (renderItems env items st).2.surface := by
  have hLookup : ∀ key, (pageBrush env key).Keeps (OnLevel true) :=
    fun key => (storedBrush_onLevel env _ key).weaken
  have hInv :=
    balanced_invariant env hLookup .page (by decide) (by decide)
      st.surface
  have hRoot :
      ∀ (root : Entry α) (st' : RenderState α),
        Stack.Balanced .page st.surface [root] st' →
          ∃ product after, (root.frame.finish env).perform st' =
            (.ok product, after) := by
    intro root st' hBalanced
    have hKind : root.frame.kind = .page := by
      cases hBalanced.grown with
      | root hBottom => exact hBottom
    exact Frame.finish_page env hKind st'
  have hDone :=
    hInv.runPart hRoot items (.ofPart (.content ⟨none, 0⟩)) st
      (.start (.content ⟨none, 0⟩) 0 rfl rfl rfl st)
  exact hDone.inside.level_of_nil

/-
  Rendering events, well nested or not, records a properly nested
  word and leaves the saved transformations, the open groups and
  the current transformation as they were, whether it succeeds
  or fails.
-/
theorem renderItems_properlyNested
    (env : Environment α)
    (items : List Item)
    (st : RenderState α) :
    let before := st.surface
    let after := (renderItems env items st).2.surface
    (∃ word : List (Operation α),
      after.operations.toList = before.operations.toList ++ word ∧
        Operation.Nested before.nextGroup word after.nextGroup) ∧
      after.saved = before.saved ∧
      after.groups = before.groups ∧
      after.ctm = before.ctm := by
  have hLevel := renderItems_level env items st
  exact
    ⟨hLevel.nested, hLevel.saved, hLevel.groups, hLevel.ctm rfl⟩

end

end FixedPage
