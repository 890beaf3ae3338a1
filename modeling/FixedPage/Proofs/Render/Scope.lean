import FixedPage.Proofs.Mirror.Elements
import FixedPage.Proofs.Render.Owner
import FixedPage.Proofs.Scalar.Exact

/-
  This file proves that rendering leaves the dictionaries in
  scope as they were: an element that draws, a stored brush and a
  stored matrix close the dictionaries that they have opened, and
  so does a page, however its rendering ends.

  On the way, the frames on the stack count the dictionaries that
  they have opened on top of those that were in scope before.

  Main declarations:
    * `Stack.Scoped`
    * `scoped_invariant`
    * `pageBrush_sameScope`
    * `Elements.take_content_sameScope`
    * `renderItems_scope`
-/

namespace FixedPage

open Markup

variable {α : Type}

------------------------------------------------------------
-- Scopes
------------------------------------------------------------

namespace ResourceScope

/- Dictionaries are closed one group after the other. -/
theorem popMany_popMany
    (s : ResourceScope)
    (m n : Nat) :
    (s.popMany m).popMany n = s.popMany (m + n) := by
  unfold popMany
  rw [List.drop_drop]

/- A dictionary that is opened is the first one to be closed. -/
theorem popMany_push
    (s : ResourceScope)
    (n : Nat) :
    s.push.popMany (n + 1) = s.popMany n :=
  rfl

/- What is in the innermost dictionary is lost when it is closed. -/
theorem popMany_of_pop
    {s s' : ResourceScope}
    {n : Nat}
    (hPop : s'.pop = s.pop)
    (hSome : 0 < n) :
    s'.popMany n = s.popMany n := by
  cases n with
  | zero => cases hSome
  | succ n =>
      unfold pop at hPop
      unfold popMany
      rw [ResourceScope.mk.injEq] at hPop ⊢
      rw [← List.drop_tail, ← List.drop_tail, hPop]

end ResourceScope

/- The same dictionaries are in scope in both states. -/
def SameScope
    (_ : Bool)
    (st st' : RenderState α) : Prop :=
  st'.scope = st.scope

instance [Scalar α] : Steady (SameScope (α := α)) where
  refl _ _ := rfl
  trans hFirst hSecond := hSecond.trans hFirst
  weaken hSame := hSame
  record _ _ _ := rfl
  transform _ _ := rfl
  bracket _ _ hInner := hInner
  caches _ _ _ _ _ := rfl

/- Closing brackets closes no dictionary. -/
theorem Closes.sameScope
    {bs : List Bracket}
    {st closed : RenderState α}
    (hCloses : Closes SameScope bs st closed) :
    closed.scope = st.scope := by
  induction hCloses with
  | done hAfter => exact hAfter
  | leave hInner _ ih => exact ih.trans hInner

------------------------------------------------------------
-- Scoped stacks
------------------------------------------------------------

/- The kinds of frames that write into the innermost dictionary. -/
def FrameKind.fills : FrameKind → Bool
| .resources => true
| .dictionary => true
| _ => false

/- Elements that draw write into no dictionary. -/
theorem FrameKind.fills_of_draws
    {kind : FrameKind}
    (hDraws : kind.draws = true) :
    kind.fills = false := by
  revert hDraws
  cases kind <;> decide

/- Content writes into no dictionary. -/
theorem FrameKind.fills_of_content
    {kind : FrameKind}
    (hKind : kind ∈ [page, visual]) :
    kind.fills = false := by
  revert hKind
  cases kind <;> decide

/- Only what owns dictionaries bears a frame that fills one. -/
theorem FrameKind.fills_of_bears
    {kind parent : FrameKind}
    (hBears : kind ∈ parent.bears)
    (hOwns : kind ≠ resources)
    (hFills : kind.fills = true) :
    parent.fills = true := by
  revert hBears hOwns hFills
  cases kind <;> cases parent <;> decide

/- Frames that write into a dictionary have opened none. -/
theorem Frame.dictionaries_of_fills
    {frame : Frame α}
    (hFills : frame.kind.fills = true) :
    frame.outline.dictionaries = 0 := by
  cases frame with
  | content f =>
      rw [Frame.kind_content] at hFills
      split at hFills <;> cases hFills
  | canvas f => cases hFills
  | _ => rfl

namespace Stack

/- The number of dictionaries that the frames of a stack opened. -/
def dictionaries
    (entries : List (Entry α)) : Nat :=
  (entries.map fun entry => entry.frame.outline.dictionaries).foldr
    (· + ·) 0

@[simp] theorem dictionaries_nil :
    dictionaries ([] : List (Entry α)) = 0 :=
  rfl

@[simp] theorem dictionaries_cons
    (top : Entry α)
    (below : List (Entry α)) :
    dictionaries (top :: below) =
      top.frame.outline.dictionaries + dictionaries below :=
  rfl

/-
  The frames lie on each other as they may. Without the
  dictionaries that they have opened, those of `base` are in
  scope, and there is one to write into for a frame that does.
-/
structure Scoped
    (root : FrameKind)
    (base : ResourceScope)
    (entries : List (Entry α))
    (st : RenderState α) : Prop where
  grown : WellGrown root entries
  scope : st.scope.popMany (dictionaries entries) = base
  filled :
    ∀ top below,
      entries = top :: below →
        top.frame.kind.fills = true → 0 < dictionaries entries

namespace Scoped

variable {root : FrameKind} {base : ResourceScope}
variable {top : Entry α} {below : List (Entry α)}
variable {st st' : RenderState α}

/- Only the dictionaries in scope matter. -/
theorem sameScope
    {entries : List (Entry α)}
    (hScoped : Scoped root base entries st)
    (hSame : st'.scope = st.scope) :
    Scoped root base entries st' :=
  ⟨hScoped.grown, hSame ▸ hScoped.scope, hScoped.filled⟩

/- The innermost dictionary may change while it is written into. -/
theorem sameOuter
    (hScoped : Scoped root base (top :: below) st)
    (hFills : top.frame.kind.fills = true)
    (hOuter : st.SameOuter st') :
    Scoped root base (top :: below) st' := by
  rcases hOuter with ⟨scope, hPop, rfl⟩
  refine ⟨hScoped.grown, ?_, hScoped.filled⟩
  exact
    (ResourceScope.popMany_of_pop hPop
      (hScoped.filled top below rfl hFills)).trans hScoped.scope

/- The top frame may change but for its outline. -/
theorem retop
    {frame' : Frame α}
    (hScoped : Scoped root base (top :: below) st)
    (hSame : frame'.outline = top.frame.outline) :
    Scoped root base (⟨frame', top.owner⟩ :: below) st := by
  have hKind : frame'.kind = top.frame.kind :=
    congrArg FrameOutline.kind hSame
  have hFilled := hScoped.filled top below rfl
  have hScope := hScoped.scope
  rw [dictionaries_cons] at hScope hFilled
  refine ⟨hScoped.grown.replace hKind, ?_, ?_⟩
  · rwa [dictionaries_cons, hSame]
  · rintro _ _ hCons hFills
    cases hCons
    rw [dictionaries_cons, hSame]
    exact hFilled (hKind ▸ hFills)

/- A frame that has opened no dictionary is put on the stack. -/
theorem push
    {child : Entry α}
    (hScoped : Scoped root base (top :: below) st)
    (hBears : child.frame.kind ∈ top.frame.kind.bears)
    (hNone : child.frame.outline.dictionaries = 0)
    (hFills :
      child.frame.kind.fills = true → top.frame.kind.fills = true) :
    Scoped root base (child :: top :: below) st := by
  have hFilled := hScoped.filled top below rfl
  refine ⟨hScoped.grown.push hBears, ?_, ?_⟩
  · rw [dictionaries_cons, hNone, Nat.zero_add]
    exact hScoped.scope
  · rintro _ _ hCons hChild
    cases hCons
    rw [dictionaries_cons, hNone, Nat.zero_add]
    exact hFilled (hFills hChild)

/- A frame that is released closes the dictionaries it opened. -/
theorem released
    (hScoped : Scoped root base (top :: below) st)
    (hState :
      st'.scope =
        st.scope.popMany top.frame.outline.dictionaries) :
    Scoped root base below st' := by
  refine ⟨hScoped.grown.tail, ?_, ?_⟩
  · rw [hState, ResourceScope.popMany_popMany]
    exact hScoped.scope
  · -- only a dictionary lies on a frame that fills one
    rintro parent rest rfl hParent
    have hTop : top.frame.kind.fills = true := by
      have hGrown := hScoped.grown
      cases hGrown with
      | lie hBears _ =>
          revert hParent hBears
          cases parent.frame.kind <;> cases top.frame.kind <;> decide
    have hFilled := hScoped.filled top _ rfl hTop
    rwa [dictionaries_cons, Frame.dictionaries_of_fills hTop,
      Nat.zero_add] at hFilled

/- An element that starts keeps the stack scoped. -/
theorem started
    [Scalar α]
    {limit : Nat}
    {frame : Frame α}
    {child? : Option (Frame α)}
    (hScoped : Scoped root base (top :: below) st)
    (hStarted :
      top.frame.Started SameScope limit st frame child? st')
    (depth : Nat) :
    Scoped root base
      ((child?.map fun child => ⟨child, depth⟩).toList
        ++ ⟨frame, top.owner⟩ :: below) st' := by
  cases hStarted with
  | steady hSame hState => exact (hScoped.retop hSame).sameScope hState
  | loaded hKind hSame hState =>
      have hFills : top.frame.kind.fills = true := by rw [hKind]; rfl
      exact (hScoped.sameOuter hFills hState).retop hSame
  | @bare _ child _ hSame hBears hBare hChild hState =>
      have hKind : frame.kind = top.frame.kind :=
        congrArg FrameOutline.kind hSame
      refine ((hScoped.retop hSame).push ?_ ?_ ?_).sameScope hState
      · exact hKind ▸ hBears
      · exact congrArg FrameOutline.dictionaries hBare
      · have hOwns : child.kind ≠ .resources := by
          intro hIs
          rw [hIs] at hChild
          exact absurd hChild (by decide)
        exact FrameKind.fills_of_bears (hKind ▸ hBears) hOwns
  | @drawing _ child _ hSame hBears hOpened =>
      have hKind : frame.kind = top.frame.kind :=
        congrArg FrameOutline.kind hSame
      rcases hOpened.state with ⟨read, hRead, rfl⟩
      have hNot := FrameKind.fills_of_draws hOpened.draws
      refine
        ((hScoped.retop hSame).push (hKind ▸ hBears)
          hOpened.dictionaries fun hFills => ?_).sameScope hRead
      exact absurd (hNot.symm.trans hFills) (by decide)
  | visual v hKind hLimit =>
      have hBears : FrameKind.visual ∈ top.frame.kind.bears := by
        rw [hKind]
        decide
      have hPushed :
          Scoped root base
            (⟨.content ⟨some v, 0⟩, depth⟩ :: top :: below) st :=
        hScoped.push hBears rfl nofun
      exact hPushed.sameScope rfl
  | resources hBears hOutline =>
      have hKind : frame.kind = top.frame.kind := by
        simp only [Frame.kind, hOutline]
      have hScope := hScoped.scope
      rw [dictionaries_cons] at hScope
      have hCount :
          dictionaries
              (⟨.resources false, depth⟩ :: ⟨frame, top.owner⟩
                :: below) =
            dictionaries (top :: below) + 1 := by
        simp only [dictionaries_cons, hOutline]
        change 0 + _ = _
        omega
      refine ⟨?_, ?_, ?_⟩
      · refine (hScoped.grown.replace hKind).push ?_
        exact hKind ▸ hBears
      · change
          st.scope.push.popMany
            (dictionaries
              (⟨.resources false, depth⟩ :: ⟨frame, top.owner⟩
                :: below)) = base
        rw [hCount, ResourceScope.popMany_push]
        exact hScope
      · rintro _ _ hCons _
        change
          0 < dictionaries
            (⟨.resources false, depth⟩ :: ⟨frame, top.owner⟩ :: below)
        omega

/- An element that fails to start keeps the stack scoped. -/
theorem refused
    [Scalar α]
    (hScoped : Scoped root base (top :: below) st)
    (hRefused : top.frame.Refused SameScope st st') :
    Scoped root base (top :: below) st' := by
  rcases hRefused with hState | ⟨hKind, hOuter⟩
  · exact hScoped.sameScope hState
  · exact hScoped.sameOuter (by rw [hKind]; rfl) hOuter

/- The end of a child keeps the stack scoped. -/
theorem received
    [Scalar α]
    {frame : Frame α}
    {product : Product α}
    (hScoped : Scoped root base (top :: below) st)
    (hReceived :
      top.frame.Received SameScope product st frame st') :
    Scoped root base (⟨frame, top.owner⟩ :: below) st' := by
  cases hReceived with
  | steady hSame hState => exact (hScoped.retop hSame).sameScope hState
  | masked hDraws _ hMasked =>
      have hKind : frame.kind = top.frame.kind := by
        simp only [Frame.kind, hMasked]
      have hScope := hScoped.scope
      rw [dictionaries_cons] at hScope
      refine ⟨hScoped.grown.replace hKind, ?_, ?_⟩
      · rw [dictionaries_cons, hMasked]
        exact hScope
      · rintro _ _ hCons hFills
        cases hCons
        have hNot := FrameKind.fills_of_draws hDraws
        rw [← hKind] at hNot
        exact absurd (hNot.symm.trans hFills) (by decide)
  | visual v _ _ hSame => exact (hScoped.retop hSame).sameScope rfl
  | ended hKind hOutline =>
      have hSame : frame.kind = top.frame.kind := by
        simp only [Frame.kind, hOutline]
      have hScope := hScoped.scope
      rw [dictionaries_cons] at hScope
      refine ⟨hScoped.grown.replace hSame, ?_, ?_⟩
      · rw [dictionaries_cons, hOutline]
        change
          (st.scope.popMany top.frame.outline.dictionaries).popMany
            (0 + dictionaries below) = base
        rwa [ResourceScope.popMany_popMany, Nat.zero_add]
      · rintro _ _ hCons hFills
        cases hCons
        have hNot := FrameKind.fills_of_content hKind
        rw [← hSame] at hNot
        exact absurd (hNot.symm.trans hFills) (by decide)
  | stored hKind hSame hState =>
      have hFills : top.frame.kind.fills = true := by rw [hKind]; rfl
      exact (hScoped.sameOuter hFills hState).retop hSame

/- A frame alone on its stack has opened no dictionary yet. -/
theorem start
    (frame : Frame α)
    (owner : Nat)
    (hKind : frame.kind = root)
    (hFills : root.fills = false)
    (hNone : frame.outline.dictionaries = 0)
    (st : RenderState α) :
    Scoped root st.scope [⟨frame, owner⟩] st := by
  refine ⟨.root hKind, ?_, ?_⟩
  · rw [dictionaries_cons, hNone]
    rfl
  · rintro _ _ hCons hTop
    cases hCons
    rw [hKind, hFills] at hTop
    cases hTop

end Scoped

end Stack

------------------------------------------------------------
-- Runs
------------------------------------------------------------

section

variable [Scalar α]

/- A frame that is finished has its dictionaries closed. -/
theorem Frame.finish_scope
    {env : Environment α}
    {frame : Frame α}
    {st st' : RenderState α}
    {product : Product α}
    (hFinish : (frame.finish env).perform st = (.ok product, st')) :
    st'.scope = st.scope.popMany frame.outline.dictionaries := by
  have hOutcome :=
    Frame.finish_outcome (R := SameScope) env frame st
  rw [hFinish] at hOutcome
  by_cases hKind : frame.kind = .visual
  · simp only [Frame.Finish, if_pos hKind] at hOutcome
    rw [hOutcome.2]
    rfl
  · simp only [Frame.Finish, if_neg hKind] at hOutcome
    rcases hOutcome.2 with ⟨closed, hCloses, rfl⟩
    change closed.scope.popMany _ = _
    rw [hCloses.sameScope]

/- A frame that is given up has its dictionaries closed. -/
theorem Frame.abort_scope
    (frame : Frame α)
    (st : RenderState α) :
    (frame.abort st).scope =
      st.scope.popMany frame.outline.dictionaries := by
  rcases Frame.abort_released (R := SameScope) frame st with
    ⟨closed, hCloses, hState⟩
  rw [hState]
  change closed.scope.popMany _ = _
  rw [hCloses.sameScope]

/- Every step of a run keeps the stack scoped. -/
theorem scoped_invariant
    (env : Environment α)
    {lookup : BrushLookup α}
    (hLookup : ∀ key, (lookup key).Keeps (SameScope true))
    (root : FrameKind)
    (base : ResourceScope) :
    Stack.Invariant env (startElement env lookup)
      (Stack.Scoped root base) where
  start := by
    intro top below depth e st hScoped
    have hOutcome := startElement_started env hLookup e top.frame st
    generalize (startElement env lookup top.frame e).perform st =
      outcome at hOutcome ⊢
    rcases outcome with ⟨fault | ⟨frame, child?⟩, st'⟩
    · exact hScoped.refused hOutcome
    · exact hScoped.started hOutcome depth
  child := by
    intro top below name st hScoped
    exact
      hScoped.received
        (top.frame.endChild_received env name .none st)
  root := by
    intro top st st' product hScoped hFinish
    exact hScoped.released (Frame.finish_scope hFinish)
  hand := by
    intro top parent below name st st' product hScoped hFinish
    exact
      (hScoped.released (Frame.finish_scope hFinish)).received
        (parent.frame.endChild_received env name product st')
  spoil := by
    intro top below st st' fault hScoped hFinish
    have hOutcome :=
      Frame.finish_outcome (R := SameScope) env top.frame st
    rw [hFinish] at hOutcome
    exact hScoped.sameScope hOutcome.2
  abort := by
    intro top below st hScoped
    exact hScoped.released (top.frame.abort_scope st)

/- A stored brush leaves the dictionaries in scope as they were. -/
theorem storedBrush_sameScope
    (env : Environment α)
    (budget : Nat)
    (key : String) :
    Action.Keeps (SameScope true) (storedBrush env budget key) := by
  induction budget generalizing key with
  | zero => exact .fail _
  | succ budget ih =>
      refine .bind ?_ fun markup => .bind ?_ fun product => ?_
      · intro st
        unfold Action.resource
        rw [Action.perform_ofEffect]
        cases st.scope.get? key <;> rfl
      · apply runFragment_keeps
        intro rest st
        exact
          ((scoped_invariant env ih .brush st.scope).runOpenFragment
            rest (.ofOpenElement (.brush none)) st
            (.start (.brush none) 1 rfl rfl rfl st)).scope
      · cases product <;> exact .pure _

/- The brushes of a page leave the dictionaries in scope. -/
theorem pageBrush_sameScope
    (env : Environment α)
    (key : String) :
    Action.Keeps (SameScope true) (pageBrush env key) :=
  storedBrush_sameScope env _ key

/- A page leaves the dictionaries in scope as they were. -/
theorem renderItems_sameScope
    (env : Environment α)
    (items : List Item)
    (st : RenderState α) :
    (renderItems env items st).2.scope = st.scope := by
  have hInv :=
    scoped_invariant env (pageBrush_sameScope env) .page st.scope
  have hRoot :
      ∀ (root : Entry α) (st' : RenderState α),
        Stack.Scoped .page st.scope [root] st' →
          ∃ product after,
            (root.frame.finish env).perform st' =
              (.ok product, after) := by
    intro root st' hScoped
    have hKind : root.frame.kind = .page := by
      cases hScoped.grown with
      | root hBottom => exact hBottom
    exact Frame.finish_page env hKind st'
  exact
    (hInv.runPart hRoot items (.ofPart (.content ⟨none, 0⟩)) st
      (.start (.content ⟨none, 0⟩) 0 rfl rfl rfl st)).scope

------------------------------------------------------------
-- Elements of content
------------------------------------------------------------

omit [Scalar α] in
/- The kinds of frames that content stands in. -/
def contentKinds : List FrameKind :=
  [.page, .visual, .canvas]

omit [Scalar α] in
/- The names of the elements that draw. -/
def contentNames : List String :=
  ["Canvas", "Path", "Glyphs"]

omit [Scalar α] in
/- Only frames that content stands in open dictionaries. -/
theorem Frame.dictionaries_of_not_content
    {frame : Frame α}
    (hKind : frame.kind ∉ contentKinds) :
    frame.outline.dictionaries = 0 := by
  cases frame with
  | content f =>
      rw [Frame.kind_content] at hKind
      split at hKind <;> exact absurd (by decide) hKind
  | canvas f => exact absurd (by simp [contentKinds]) hKind
  | _ => rfl

section

variable {env : Environment α} {lookup : BrushLookup α}

/- An element that draws has a frame of its own. -/
theorem startContent_opens
    {e : Element}
    {child? : Option (Frame α)}
    {st st' : RenderState α}
    (hName : e.name ∈ contentNames)
    (hOk :
      (startContent env lookup e).perform st = (.ok child?, st')) :
    ∃ child, child? = some child := by
  unfold startContent at hOk
  split at hOk
  case h_4 => simp_all [contentNames]
  all_goals
    rw [Action.perform_bind] at hOk
    split at hOk <;> cases hOk
    exact ⟨_, rfl⟩

/- The end of an element that draws goes unnoticed. -/
theorem Frame.endChild_content
    {frame : Frame α}
    {name : String}
    (hKind : frame.kind ∈ contentKinds)
    (hName : name ∈ contentNames)
    (product : Product α)
    (st : RenderState α) :
    frame.endChild env name product st = (frame, st) := by
  simp only [contentNames, List.mem_cons, List.not_mem_nil, or_false]
    at hName
  cases frame with
  | content f => rcases hName with rfl | rfl | rfl <;> rfl
  | canvas f => rcases hName with rfl | rfl | rfl <;> rfl
  | _ => simp [contentKinds] at hKind

/-
  What happens when an element that draws is taken: its frame is
  opened, takes its elements and is finished, and the others are
  taken by the frame it lies in.
-/
theorem Markup.Elements.take_content
    {name : String}
    {attributes : List Attribute}
    {inner rest : Elements}
    {frame frame' : Frame α}
    {st st' : RenderState α}
    (hKind : frame.kind ∈ contentKinds)
    (hName : name ∈ contentNames)
    (hOk :
      ((Elements.element name attributes inner rest).take env
        (startElement env lookup) frame).perform st =
          (.ok frame', st')) :
    ∃ child opened last full product done,
      (FixedPage.startContent env lookup
            ⟨.nowhere, name, attributes⟩).perform st =
          (.ok (some child), opened) ∧
        (inner.take env (startElement env lookup) child).perform
            opened = (.ok last, full) ∧
          (last.finish env).perform full = (.ok product, done) ∧
            (rest.take env (startElement env lookup) frame).perform
              done = (.ok frame', st') := by
  have hStarts :
      startElement env lookup frame ⟨.nowhere, name, attributes⟩ =
        FixedPage.startContent env lookup
            ⟨.nowhere, name, attributes⟩ >>=
          fun child? => pure (frame, child?) :=
    startElement_content hKind hName
  generalize hStart :
    (FixedPage.startContent env lookup
      ⟨.nowhere, name, attributes⟩).perform st = outcome
  rcases outcome with ⟨fault | child?, opened⟩
  · have hFails :
        (startElement env lookup frame
            ⟨.nowhere, name, attributes⟩).perform st =
          (.error fault, opened) := by
      rw [hStarts, Action.perform_bind, hStart]
    exact absurd hOk (take_ne_ok hFails)
  · rcases startContent_opens hName hStart with ⟨child, rfl⟩
    have hOpens :
        (startElement env lookup frame
            ⟨.nowhere, name, attributes⟩).perform st =
          (.ok (frame, some child), opened) := by
      rw [hStarts, Action.perform_bind, hStart]
      rfl
    rcases take_opened hOpens hOk with
      ⟨last, full, product, done, hInner, hFinish, hRest⟩
    refine
      ⟨child, opened, last, full, product, done, rfl, hInner, hFinish,
        ?_⟩
    rwa [Action.perform_bind, Frame.receive, Action.perform_ofEffect,
      Frame.endChild_content hKind hName] at hRest

/-
  What a frame that opens no dictionaries makes of elements
  leaves the dictionaries in scope.
-/
theorem Markup.Elements.take_sameScope
    (hLookup : ∀ key, (lookup key).Keeps (SameScope true))
    (elements : Elements)
    {frame frame' : Frame α}
    {st st' : RenderState α}
    (hKind : frame.kind ∉ contentKinds)
    (hFills : frame.kind.fills = false)
    (hOk :
      (elements.take env (startElement env lookup) frame).perform st =
        (.ok frame', st')) :
    st'.scope = st.scope := by
  have hTaken :=
    (scoped_invariant env hLookup frame.kind st.scope).take elements
      frame
      (.start frame 0 rfl hFills
        (Frame.dictionaries_of_not_content hKind) st)
  rw [hOk] at hTaken
  have hSame : frame'.kind = frame.kind := by
    cases hTaken.grown with
    | root hBottom => exact hBottom
  have hScope := hTaken.scope
  rw [Stack.dictionaries_cons,
    Frame.dictionaries_of_not_content (hSame ▸ hKind)] at hScope
  exact hScope

/-
  Elements that draw leave the frame they stand in and the
  dictionaries in scope as they were, by induction on the
  elements: each of them closes the dictionaries it has opened.
-/
theorem Markup.Elements.take_content_sameScope
    (hLookup : ∀ key, (lookup key).Keeps (SameScope true))
    (elements : Elements)
    (hAmong : elements.Among contentNames)
    {frame frame' : Frame α}
    {st st' : RenderState α}
    (hKind : frame.kind ∈ contentKinds)
    (hOk :
      (elements.take env (startElement env lookup) frame).perform st =
        (.ok frame', st')) :
    frame' = frame ∧ st'.scope = st.scope := by
  induction elements generalizing st with
  | none =>
      cases hOk
      exact ⟨rfl, rfl⟩
  | element name attributes inner rest _ ih =>
      rcases take_content hKind hAmong.1 hOk with
        ⟨child, opened, last, full, product, done, hStart, hInner,
          hFinish, hRest⟩
      have hOpened :=
        startContent_outcome (R := SameScope) env hLookup
          ⟨.nowhere, name, attributes⟩ st
      rw [hStart] at hOpened
      rcases hOpened.state with ⟨read, hRead, rfl⟩
      have hTaken :=
        (scoped_invariant env hLookup child.kind read.scope).take inner
          child
          (.start child 0 rfl
            (FrameKind.fills_of_draws hOpened.draws)
            hOpened.dictionaries
            (read.draw (openGroups child.outline)))
      rw [hInner] at hTaken
      have hDone := (hTaken.released (Frame.finish_scope hFinish)).scope
      rcases ih hAmong.2 hRest with ⟨hFrame, hScope⟩
      refine ⟨hFrame, hScope.trans (Eq.trans ?_ hRead)⟩
      exact hDone

end

------------------------------------------------------------
-- Elements of all frames
------------------------------------------------------------

omit [Scalar α] in
/-
  An element that draws, unless it is the root of an entry of a
  dictionary, or any element of a brush.
-/
def Frame.Bounds
    (frame : Frame α)
    (name : String) : Prop :=
  name ∈ contentNames ∧ frame ≠ .dictionary none ∨
    frame.kind = .brush

section

variable {env : Environment α} {frame : Frame α} {name : String}

omit [Scalar α] in
/- Only brushes bound elements that do not draw. -/
theorem Frame.Bounds.draws
    (hBounds : frame.Bounds name)
    (hKind : frame.kind ≠ .brush) :
    name ∈ contentNames := by
  rcases hBounds with ⟨hName, _⟩ | hBrush
  · exact hName
  · exact absurd hBrush hKind

omit [Scalar α] in
/- A dictionary bounds elements when an entry is under way. -/
theorem Frame.Bounds.entry
    (hBounds : frame.Bounds name)
    (hKind : frame.kind = .dictionary) :
    ∃ entry, frame = .dictionary (some entry) := by
  rcases hBounds with ⟨_, hFrame⟩ | hBrush
  · cases frame with
    | dictionary current? =>
        cases current? with
        | none => exact absurd rfl hFrame
        | some entry => exact ⟨entry, rfl⟩
    | content f =>
        rw [Frame.kind_content] at hKind
        split at hKind <;> cases hKind
    | _ => cases hKind
  · rw [hKind] at hBrush
    cases hBrush

omit [Scalar α] in
/- Owners of dictionaries and dictionaries fill them. -/
theorem Frame.resources_of_fills
    (hFills : frame.kind.fills = true)
    (hKind : frame.kind ≠ .dictionary) :
    ∃ remote, frame = .resources remote := by
  cases frame with
  | resources remote => exact ⟨remote, rfl⟩
  | dictionary current? => exact absurd rfl hKind
  | content f =>
      rw [Frame.kind_content] at hFills
      split at hFills <;> cases hFills
  | _ => cases hFills

/- Frames that draw nothing know no element that draws. -/
theorem startStored_fails
    {e : Element}
    (hBounds : frame.Bounds e.name)
    (hKind : frame.kind ≠ .dictionary)
    (st : RenderState α) :
    (startStored frame e).perform st = (.error e.unknown, st) := by
  cases frame with
  | dictionary current? => exact absurd rfl hKind
  | matrix m =>
      have hName : e.name ∈ contentNames := hBounds.draws nofun
      have hOther : (e.name == "MatrixTransform") = false := by
        rw [beq_eq_false_iff_ne]
        rintro hIs
        rw [hIs] at hName
        exact absurd hName (by decide)
      have hFails : startMatrix e m = .error e.unknown := by
        unfold startMatrix
        rw [hOther]
        rfl
      rw [startStored, Action.perform_bind, Action.perform_ofExcept,
        hFails]
  | _ => rfl

/- An owner of dictionaries knows no element that draws. -/
theorem startElement_resources_fails
    (lookup : BrushLookup α)
    {e : Element}
    (hName : e.name ∈ contentNames)
    (remote : Bool)
    (st : RenderState α) :
    (startElement env lookup (.resources remote) e).perform st =
      (.error e.unknown, st) := by
  have hOther : (e.name != "ResourceDictionary") = true := by
    rw [bne_iff_ne]
    rintro hIs
    rw [hIs] at hName
    exact absurd hName (by decide)
  rw [startElement, Action.perform_bind, startResources, hOther,
    Bool.true_or, if_pos rfl, Action.perform_fail]

/- The runs of a page and of its resources start elements alike. -/
theorem Script.handler_alike
    (env : Environment α)
    (script : Script) :
    StartsAlike env .zero true (script.handler env) := by
  cases script
  · exact pageElement_alike env .zero true
  · exact startStored_alike

/- Dictionaries record in the runs of a page and its resources. -/
theorem Script.handler_records
    (env : Environment α)
    (script : Script) :
    StartHandler.Records (script.handler env) := by
  cases script
  · exact startElement_records env (pageBrush env)
  · exact startStored_records

/-
  An element that draws, and any element of a brush, leaves the
  dictionaries in scope as they were when it started.
-/
theorem Markup.Elements.take_element_sameScope
    (script : Script)
    {attributes : List Attribute}
    {inner : Elements}
    {frame' : Frame α}
    {st st' : RenderState α}
    (hBounds : frame.Bounds name)
    (hOk :
      ((Elements.element name attributes inner .none).take env
        (script.handler env) frame).perform st =
          (.ok frame', st')) :
    st'.scope = st.scope := by
  have hLookup := pageBrush_sameScope env
  by_cases hDictionary : frame.kind = .dictionary
  · -- inside an entry an element is only recorded
    rcases hBounds.entry hDictionary with ⟨entry, rfl⟩
    rw [take_recorded (script.handler_records env)] at hOk
    cases hOk
    rfl
  cases script with
  | stored =>
      exact
        absurd hOk
          (take_ne_ok
            (startStored_fails (e := ⟨.nowhere, name, attributes⟩)
              hBounds hDictionary st))
  | page =>
      by_cases hKind : frame.kind ∈ contentKinds
      · have hName : name ∈ contentNames := by
          refine hBounds.draws fun hBrush => ?_
          rw [hBrush] at hKind
          exact absurd hKind (by decide)
        have hAmong :
            (Elements.element name attributes inner .none).Among
              contentNames :=
          ⟨hName, trivial⟩
        exact
          (take_content_sameScope hLookup _ hAmong hKind hOk).2
      · by_cases hFills : frame.kind.fills = true
        · rcases Frame.resources_of_fills hFills hDictionary with
            ⟨remote, rfl⟩
          have hName : name ∈ contentNames := hBounds.draws nofun
          exact
            absurd hOk
              (take_ne_ok
                (startElement_resources_fails (pageBrush env)
                  (e := ⟨.nowhere, name, attributes⟩) hName remote
                  st))
        · exact
            take_sameScope hLookup _ hKind
              (Bool.not_eq_true _ ▸ hFills) hOk

end

------------------------------------------------------------
-- Rendering
------------------------------------------------------------

/-
  Whenever an element that draws, or one of a brush, has been
  taken, in the run of the page or of anything that it reads, the
  dictionaries in scope are those that were in scope when it
  started. Stored brushes and matrices leave them as they were,
  and so does the page, however its rendering ends.
-/
theorem renderItems_scope
    (env : Environment α)
    (items : List Item)
    (st : RenderState α) :
    (renderItems env items st).2.scope = st.scope ∧
      (∀ (key : String) (now : RenderState α),
        ((pageBrush env key).perform now).2.scope = now.scope ∧
          ((storedTransform env key).perform now).2.scope =
            now.scope) ∧
      (∀ (script : Script) (top : Entry α) (below : List (Entry α))
        (depth : Nat) (written : List (Location × Event))
        (rest : List Item) (outer : List (Run α))
        (now after : RenderState α) (next : Stack α) (name : String)
        (attributes : List Attribute) (inner : Elements),
        Active env (.ofPage items) st
            (⟨script, ⟨top :: below, depth⟩,
              some (written.map .ok ++ rest)⟩ :: outer) now →
          tagsOf written =
              (Elements.element name attributes inner .none).tags →
            top.frame.Bounds name →
              Stack.feedAll env (script.handler env)
                    ⟨top :: below, depth⟩ now written =
                  ⟨.ok none, next, after⟩ →
                after.scope = now.scope) := by
  refine ⟨renderItems_sameScope env items st, ?_, ?_⟩
  · intro key now
    refine ⟨pageBrush_sameScope env key now, ?_⟩
    exact congrArg RenderState.scope
      (storedTransform_keeps env key now).symm
  · intro script top below depth written rest outer now after next
      name attributes inner hActive hTags hBounds hFed
    have hFirst :
        (Run.ofPage (α := α) items).stack.Ordered :=
      .root _ (Nat.le_refl 0)
    have hOwner : top.owner ≤ depth :=
      (hActive.ordered hFirst).bound top (.head _)
    rcases
      Stack.take_of_feedAll (script.handler_alike env) hTags hOwner
        hFed with
      ⟨frame, hTaken, _⟩
    exact Elements.take_element_sameScope script hBounds hTaken

/- A run goes on while its tags are fed to it. -/
theorem Active.feedAll
    {env : Environment α}
    {first : Run α}
    {script : Script}
    {items : List (Location × Event)}
    {rest : List Item}
    {outer : List (Run α)}
    {st₀ : RenderState α}
    {stack stack' : Stack α}
    {st st' : RenderState α}
    (hRun :
      Active env first st₀
        (⟨script, stack, some (items.map .ok ++ rest)⟩ :: outer) st)
    (hFed :
      stack.feedAll env (script.handler env) st items =
        ⟨.ok none, stack', st'⟩) :
    Active env first st₀ (⟨script, stack', some rest⟩ :: outer)
      st' := by
  induction items generalizing stack st with
  | nil =>
      cases hFed
      exact hRun
  | cons item items ih =>
      rcases item with ⟨place, event⟩
      rw [Stack.feedAll] at hFed
      generalize hStep :
        stack.feed env (script.handler env) place st event = fed
        at hFed
      rcases fed with ⟨fault | _ | product, mid, st₁⟩
      · cases hFed
      · exact ih (.step hRun hStep (.inr rfl)) hFed
      · cases hFed

end

------------------------------------------------------------
-- A covered color
------------------------------------------------------------

namespace Covered

/- A color under the key `Ink` among the resources of an element. -/
def resources
    (owner color : String) : Elements :=
  .element (owner ++ ".Resources") []
    (.element "ResourceDictionary" []
      (.element "SolidColorBrush"
        [⟨keyAttribute, "Ink"⟩, ⟨"Color", color⟩] .none .none)
      .none)
    .none

/- The tags of elements. -/
def items
    (tags : List Event) : List (Location × Event) :=
  tags.map (Prod.mk ⟨"page", 1, 1⟩)

/- What a page with a color begins with. -/
def head : List (Location × Event) :=
  items (.startTag "FixedPage" []
    :: (resources "FixedPage" "#000000").tags)

/- A canvas with a color of its own under the same key. -/
def canvas : List (Location × Event) :=
  items
    (Elements.element "Canvas" [] (resources "Canvas" "#FFFFFF")
      .none).tags

/- The end of the page. -/
def tail : List Item :=
  [.ok (⟨"page", 1, 1⟩, .endTag "FixedPage")]

/- A page with the canvas. -/
def page : List Item :=
  (head ++ canvas).map .ok ++ tail

/- The tags of a page are fed to its run. -/
def feedAll
    (stack : Stack ℚ)
    (st : RenderState ℚ)
    (tags : List (Location × Event)) : Fed ℚ :=
  stack.feedAll .empty (Script.page.handler .empty) st tags

/- The page before the canvas. -/
def opened : Fed ℚ :=
  feedAll (.ofPart (.content ⟨none, 0⟩)) (.start .empty .empty .empty)
    head

/- The page in the canvas, before the canvas ends. -/
def covered : Fed ℚ :=
  feedAll opened.stack opened.state canvas.dropLast

/- The page after the canvas. -/
def closed : Fed ℚ :=
  feedAll opened.stack opened.state canvas

end Covered

/- The color of the page is in scope again after the canvas. -/
theorem Covered.uncovered :
    Covered.covered.state.scope ≠ Covered.opened.state.scope ∧
      Covered.closed.result = .ok none ∧
        Covered.closed.state.scope = Covered.opened.state.scope := by
  have hOpened :
      Covered.opened =
        ⟨.ok none, ⟨[⟨.content ⟨none, 1⟩, 0⟩], 1⟩,
          Covered.opened.state⟩ :=
    rfl
  have hClosed :
      Covered.closed =
        ⟨.ok none, Covered.closed.stack, Covered.closed.state⟩ :=
    rfl
  have hActive :
      Active .empty (.ofPage Covered.page)
        (.start .empty .empty .empty)
        [⟨.page, ⟨[⟨.content ⟨none, 1⟩, 0⟩], 1⟩,
          some (Covered.canvas.map .ok ++ Covered.tail)⟩]
        Covered.opened.state := by
    refine Active.feedAll ?_ hOpened
    rw [← List.append_assoc, ← List.map_append]
    exact .start
  refine ⟨by decide +kernel, by rw [hClosed], ?_⟩
  exact
    (renderItems_scope .empty Covered.page
        (.start .empty .empty .empty)).2.2
      .page _ [] 1 Covered.canvas Covered.tail [] _ _ _ "Canvas" []
      (Covered.resources "Canvas" "#FFFFFF") hActive
      (tagsOf_eq_tags (by decide)) (.inl ⟨.head _, nofun⟩) hClosed

end FixedPage
