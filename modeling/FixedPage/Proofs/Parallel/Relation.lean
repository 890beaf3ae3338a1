import FixedPage.Proofs.Memory.Lookup
import FixedPage.Proofs.Render.Effect
import FixedPage.Proofs.Surface.Operations
import FixedPage.Render.Reference

/-
  This file compares two runs of one page that go side by side,
  which may differ in what they have in memory and in what they
  put up with. They write the same as long as the first one goes
  well. What they paint with are colors, images and layers of
  groups that have been closed before.

  Main declarations:
    * `Operation.patterns`
    * `Shown`
    * `Settled`
    * `Surface.Draws`
    * `Likeness`
    * `Likeness.Relates`
    * `Likeness.Outcome`
    * `Action.Agrees`
-/

namespace FixedPage

open Markup

variable {α : Type}

------------------------------------------------------------
-- Patterns
------------------------------------------------------------

/- What a pattern shows is there after some operations. -/
def PatternKind.Settled
    (w : List (Operation α)) : PatternKind α → Prop
| .layer closed => .popGroup closed ∈ w
| _ => True

/- What some patterns show is there after some operations. -/
def Shown
    (w : List (Operation α))
    (patterns : List (Pattern α)) : Prop :=
  ∀ p ∈ patterns, p.kind.Settled w

namespace Shown

variable {w w' : List (Operation α)} {ps qs : List (Pattern α)}

@[simp] theorem nil : Shown w [] :=
  nofun

@[simp] theorem append_iff :
    Shown w (ps ++ qs) ↔ Shown w ps ∧ Shown w qs := by
  unfold Shown
  rw [List.forall_mem_append]

@[simp] theorem cons_iff
    {p : Pattern α} :
    Shown w (p :: ps) ↔ p.kind.Settled w ∧ Shown w ps := by
  unfold Shown
  rw [List.forall_mem_cons]

/- Nothing that is there is lost. -/
theorem later
    (hShown : Shown w ps)
    (hLater : w <+: w') :
    Shown w' ps := by
  intro p hMem
  have hSettled := hShown p hMem
  cases hKind : p.kind with
  | layer layer =>
      rw [hKind] at hSettled
      exact hLater.subset hSettled
  | _ => trivial

end Shown

/- What an operation paints with. -/
def Operation.patterns : Operation α → List (Pattern α)
| .setSource p => [p]
| .mask p => [p]
| _ => []

/-
  Whatever is painted with, it was there before the operation
  that names it.
-/
def Settled
    (w : List (Operation α)) : Prop :=
  ∀ pre op post, w = pre ++ op :: post → Shown pre op.patterns

namespace Settled

theorem nil :
    Settled ([] : List (Operation α)) := by
  intro pre op post hWord
  simp at hWord

/- One more operation, with patterns that are there. -/
theorem snoc
    {w : List (Operation α)}
    {op : Operation α}
    (hSettled : Settled w)
    (hShown : Shown w op.patterns) :
    Settled (w ++ [op]) := by
  intro pre op' post hWord
  rcases List.eq_nil_or_concat post with rfl | ⟨init, last, rfl⟩
  · rcases List.append_inj' hWord rfl with ⟨rfl, hLast⟩
    cases hLast
    exact hShown
  · rw [List.concat_eq_append, ← List.cons_append,
      ← List.append_assoc] at hWord
    rcases List.append_inj' hWord rfl with ⟨hInit, -⟩
    exact hSettled pre op' init hInit

end Settled

------------------------------------------------------------
-- Drawing
------------------------------------------------------------

/- A surface is drawn on with patterns that are there. -/
structure Surface.Draws
    (patterns : List (Pattern α))
    (s s' : Surface α) : Prop where
  settled :
    Settled s.written →
      Shown s.written patterns → Settled s'.written
  grows : s.written <+: s'.written

namespace Surface.Draws

variable {ps : List (Pattern α)} {s s' s'' : Surface α}

theorem refl
    (s : Surface α) :
    Draws ps s s :=
  ⟨fun hSettled _ => hSettled, List.prefix_rfl⟩

theorem trans
    (hFirst : Draws ps s s')
    (hNext : Draws ps s' s'') :
    Draws ps s s'' where
  settled hSettled hShown :=
    hNext.settled (hFirst.settled hSettled hShown)
      (hShown.later hFirst.grows)
  grows := hFirst.grows.trans hNext.grows

/- More patterns may be there. -/
theorem weaken
    {qs : List (Pattern α)}
    (hDraws : Draws ps s s')
    (hMore : ps ⊆ qs) :
    Draws qs s s' where
  settled hSettled hShown :=
    hDraws.settled hSettled fun p hMem => hShown p (hMore hMem)
  grows := hDraws.grows

/- An operation that is written. -/
theorem of_written
    {op : Operation α}
    (hWritten : s'.written = s.written ++ [op])
    (hPatterns : op.patterns ⊆ ps) :
    Draws ps s s' where
  settled hSettled hShown := by
    rw [hWritten]
    exact hSettled.snoc fun p hMem => hShown p (hPatterns hMem)
  grows := ⟨_, hWritten.symm⟩

theorem record
    (op : Operation α)
    (hPatterns : op.patterns ⊆ ps)
    (s : Surface α) :
    Draws ps s (s.record op) :=
  .of_written (s.written_record op) hPatterns

theorem save
    (s : Surface α) :
    Draws ps s s.save :=
  .of_written s.written_save (List.nil_subset ps)

theorem restore
    (s : Surface α) :
    Draws ps s s.restore :=
  .of_written s.written_restore (List.nil_subset ps)

theorem pushGroup
    (s : Surface α) :
    Draws ps s s.pushGroup :=
  .of_written s.written_pushGroup (List.nil_subset ps)

theorem closeGroup
    (s : Surface α) :
    Draws ps s s.closeGroup :=
  .of_written s.written_closeGroup (List.nil_subset ps)

theorem transform
    [Scalar α]
    (m : Matrix α)
    (s : Surface α) :
    Draws ps s (s.transform m) :=
  .of_written (s.written_transform m) (List.nil_subset ps)

theorem takeAll
    (steps : List (PathStep α))
    (s : Surface α) :
    Draws ps s (s.takeAll steps) := by
  induction steps generalizing s with
  | nil => exact refl s
  | cons step rest ih =>
      have hStep : Draws ps s (s.take step) := by
        cases step <;> exact record _ (List.nil_subset ps) s
      exact hStep.trans (ih _)

theorem onlyIf
    (condition : Bool)
    {f : Surface α → Surface α}
    (hDraws : ∀ s, Draws ps s (f s))
    (s : Surface α) :
    Draws ps s (FixedPage.onlyIf condition f s) := by
  cases condition with
  | false => exact refl s
  | true => exact hDraws s

/- The layer of a group that is closed is there. -/
theorem shown_popGroup
    (s : Surface α) :
    Shown s.closeGroup.written [s.popGroup.1] := by
  rw [Shown.cons_iff, Surface.written_closeGroup]
  exact ⟨by simp [popGroup, PatternKind.Settled], Shown.nil⟩

/- A group that is closed is painted with. -/
theorem popGroupToSource
    (s : Surface α) :
    Draws ps s s.popGroupToSource where
  settled hSettled hShown := by
    change Settled (s.closeGroup.setSource s.popGroup.1).written
    rw [written_setSource]
    have hClosed : Settled s.closeGroup.written :=
      (closeGroup s).settled hSettled hShown
    exact hClosed.snoc (shown_popGroup s)
  grows := by
    have hSource :
        s.popGroupToSource.written =
          s.written ++ [.popGroup s.topLayer]
            ++ [.setSource s.popGroup.1] := by
      change (s.closeGroup.setSource s.popGroup.1).written = _
      rw [written_setSource, written_closeGroup]
    rw [hSource, List.append_assoc]
    exact List.prefix_append _ _

theorem maskGroup
    {mask? : Option (Pattern α)}
    (hMask : mask?.toList ⊆ ps)
    (s : Surface α) :
    Draws ps s (FixedPage.maskGroup mask? s) := by
  cases mask? with
  | none => exact popGroupToSource s
  | some mask => exact (popGroupToSource s).trans (record _ hMask _)

theorem paintGroup
    (opacity : α)
    (s : Surface α) :
    Draws ps s (FixedPage.paintGroup opacity s) :=
  (popGroupToSource s).trans (record _ (List.nil_subset ps) _)

theorem newPath
    (s : Surface α) :
    Draws ps s s.newPath :=
  record _ (List.nil_subset ps) s

theorem clip
    (s : Surface α) :
    Draws ps s s.clip :=
  record _ (List.nil_subset ps) s

theorem paintGroups
    (inMask inOpacity : Bool)
    {mask? : Option (Pattern α)}
    (hMask : mask?.toList ⊆ ps)
    (opacity : α)
    (s : Surface α) :
    Draws ps s
      (FixedPage.paintGroups inMask inOpacity mask? opacity s) :=
  (onlyIf inMask (maskGroup hMask) s).trans
    (onlyIf inOpacity (paintGroup opacity) _)

theorem dropGroups
    (inMask inOpacity : Bool)
    (s : Surface α) :
    Draws ps s (FixedPage.dropGroups inMask inOpacity s) :=
  (onlyIf inMask closeGroup s).trans (onlyIf inOpacity closeGroup _)

end Surface.Draws

/- What a path is painted with. -/
def PathState.patterns
    (state : PathState α) : List (Pattern α) :=
  state.fill?.toList ++ state.stroke?.toList ++ state.mask?.toList

namespace PathState

variable (state : PathState α)

theorem fill_subset : state.fill?.toList ⊆ state.patterns := by
  simp [patterns]

theorem stroke_subset : state.stroke?.toList ⊆ state.patterns := by
  simp [patterns]

theorem mask_subset : state.mask?.toList ⊆ state.patterns := by
  simp [patterns]

variable {state} {ps : List (Pattern α)}

theorem patterns_subset
    (hFill : state.fill?.toList ⊆ ps)
    (hStroke : state.stroke?.toList ⊆ ps)
    (hMask : state.mask?.toList ⊆ ps) :
    state.patterns ⊆ ps :=
  List.append_subset.mpr
    ⟨List.append_subset.mpr ⟨hFill, hStroke⟩, hMask⟩

end PathState

namespace Surface.Draws

variable (state : PathState α)

/- Filling and stroking paints with the brushes of the path. -/
theorem paintCurrent
    (filled : Bool)
    (s : Surface α) :
    Draws state.patterns s (FixedPage.paintCurrent state filled s) := by
  have hFill := state.fill_subset
  have hStroke := state.stroke_subset
  unfold FixedPage.paintCurrent
  dsimp only
  split
  · rename_i fill stroke hIf hIs
    rw [hIs] at hStroke
    have hFilled : [fill] ⊆ state.patterns := by
      cases filled with
      | false => cases hIf
      | true =>
          rw [show state.fill? = some fill from hIf] at hFill
          exact hFill
    exact
      (((record (.setSource fill) hFilled s).trans
        (record _ (List.nil_subset _) _)).trans
          (record (.setSource stroke) hStroke _)).trans
            (record _ (List.nil_subset _) _)
  · rename_i fill hIf _
    have hFilled : [fill] ⊆ state.patterns := by
      cases filled with
      | false => cases hIf
      | true =>
          rw [show state.fill? = some fill from hIf] at hFill
          exact hFill
    exact
      (record (.setSource fill) hFilled s).trans
        (record _ (List.nil_subset _) _)
  · rename_i stroke _ hIs
    rw [hIs] at hStroke
    exact
      (record (.setSource stroke) hStroke s).trans
        (record _ (List.nil_subset _) _)
  · exact newPath s

/- A path is painted with its brushes and its mask. -/
theorem paintPath
    [Scalar α]
    (path : PathBuilder α)
    (filled : Bool)
    (s : Surface α) :
    Draws state.patterns s
      (FixedPage.paintPath path state filled s) := by
  have hPath (s : Surface α) :
      Draws state.patterns s
        (FixedPage.paintCurrent state filled
          (s.newPath.takeAll path.steps)) :=
    ((newPath s).trans (takeAll path.steps _)).trans
      (paintCurrent state filled _)
  have hMask := state.mask_subset
  unfold FixedPage.paintPath beginMask endMask
  cases hIs : state.mask? with
  | none => exact hPath s
  | some mask =>
      rw [hIs] at hMask
      cases state.maskExtents? path with
      | none =>
          exact
            ((pushGroup s).trans (hPath _)).trans (maskGroup hMask _)
      | some box =>
          exact
            (((((newPath s).trans (takeAll _ _)).trans
              (clip _)).trans (pushGroup _)).trans (hPath _)).trans
                (maskGroup hMask _)

end Surface.Draws

------------------------------------------------------------
-- Runs side by side
------------------------------------------------------------

/-
  What two runs have in common: how their memories are to each
  other, and whether the second one puts up with more.
-/
structure Likeness (α : Type) where
  fonts : Cache (Font α) → Cache (Font α) → Prop
  images : Cache (Image α) → Cache (Image α) → Prop
  profiles : ProfileCache α → ProfileCache α → Prop
  lax : Bool

/- The environment of a page that is rendered otherwise. -/
def Environment.under
    (env : Environment α)
    (options : Options) : Environment α :=
  { env with options := options }

namespace Likeness

/- The states of two runs that have written the same. -/
structure Relates
    (L : Likeness α)
    (st st' : RenderState α) : Prop where
  surface : st'.surface = st.surface
  scope : st'.scope = st.scope
  visualDepth : st'.visualDepth = st.visualDepth
  fonts : L.fonts st.fonts st'.fonts
  images : L.images st.images st'.images
  profiles : L.profiles st.profiles st'.profiles
  settled : Settled st.surface.written

/- What a page takes from outside keeps the memories alike. -/
structure Admits
    (L : Likeness α)
    (env : Environment α)
    (options : Options) : Prop where
  fonts : Cache.Serves env.loadFont L.fonts
  images : Cache.Serves env.loadImage L.images
  profiles : Cache.Serves env.profileSource.load L.profiles
  options :
    options = env.options ∨
      L.lax = true ∧
        env.options.maxVisualDepth ≤ options.maxVisualDepth ∧
          (options.strict = true → env.options.strict = true)

/-
  The second run does what the first one does. When the first one
  fails, a second one that puts up with more may go on.
-/
inductive Outcome
    {β : Type}
    (L : Likeness α)
    (shows : β → List (Pattern α))
    (st : RenderState α) :
    Except Error β × RenderState α →
      Except Error β × RenderState α → Prop
| ok
    {b : β}
    {now now' : RenderState α}
    (hState : L.Relates now now')
    (hGrows : st.surface.written <+: now.surface.written)
    (hShown : Shown now.surface.written (shows b)) :
    Outcome L shows st (.ok b, now) (.ok b, now')
| error
    {fault : Error}
    {now now' : RenderState α}
    (hState : L.Relates now now')
    (hGrows : st.surface.written <+: now.surface.written) :
    Outcome L shows st (.error fault, now) (.error fault, now')
| lax
    {fault : Error}
    {now : RenderState α}
    {outcome' : Except Error β × RenderState α}
    (hLax : L.lax = true) :
    Outcome L shows st (.error fault, now) outcome'

end Likeness

/-
  Two runs that have the same in memory and put up with the same.
-/
def Likeness.twin : Likeness α :=
  ⟨Eq, Eq, Eq, false⟩

/-
  Two actions that are given some patterns do the same, and so
  are the patterns that their result names.
-/
def Action.Agrees
    {β : Type}
    (L : Likeness α)
    (given : List (Pattern α))
    (shows : β → List (Pattern α))
    (x x' : Action α β) : Prop :=
  ∀ st st',
    L.Relates st st' →
      Shown st.surface.written given →
        L.Outcome shows st (x.perform st) (x'.perform st')

namespace Likeness

variable {β : Type} {L : Likeness α}
variable {st st' : RenderState α}

/- Drawing the same on both surfaces. -/
theorem Relates.draw
    {ps : List (Pattern α)}
    {f : Surface α → Surface α}
    (hStates : L.Relates st st')
    (hDraws : st.surface.Draws ps (f st.surface))
    (hShown : Shown st.surface.written ps) :
    L.Relates (st.draw f) (st'.draw f) where
  surface := congrArg f hStates.surface
  scope := hStates.scope
  visualDepth := hStates.visualDepth
  fonts := hStates.fonts
  images := hStates.images
  profiles := hStates.profiles
  settled := hDraws.settled hStates.settled hShown

/- Changing both scopes alike. -/
theorem Relates.rescope
    (f : ResourceScope → ResourceScope)
    (hStates : L.Relates st st') :
    L.Relates { st with scope := f st.scope }
      { st' with scope := f st'.scope } where
  surface := hStates.surface
  scope := congrArg f hStates.scope
  visualDepth := hStates.visualDepth
  fonts := hStates.fonts
  images := hStates.images
  profiles := hStates.profiles
  settled := hStates.settled

/- Changing the number of visual brushes under way alike. -/
theorem Relates.redepth
    (f : Nat → Nat)
    (hStates : L.Relates st st') :
    L.Relates { st with visualDepth := f st.visualDepth }
      { st' with visualDepth := f st'.visualDepth } where
  surface := hStates.surface
  scope := hStates.scope
  visualDepth := congrArg f hStates.visualDepth
  fonts := hStates.fonts
  images := hStates.images
  profiles := hStates.profiles
  settled := hStates.settled

namespace Outcome

variable {shows : β → List (Pattern α)}
variable {outcome outcome' : Except Error β × RenderState α}

/- What has been written before does not matter. -/
theorem after
    {mid : RenderState α}
    (hOutcome : L.Outcome shows mid outcome outcome')
    (hGrows : st.surface.written <+: mid.surface.written) :
    L.Outcome shows st outcome outcome' := by
  cases hOutcome with
  | ok hState hLater hShown =>
      exact .ok hState (hGrows.trans hLater) hShown
  | error hState hLater => exact .error hState (hGrows.trans hLater)
  | lax hLax => exact .lax hLax

/- Neither run puts up with more, so both end in the same way. -/
theorem of_strict
    (hStrict : L.lax = false)
    (hOutcome : L.Outcome shows st outcome outcome') :
    outcome'.1 = outcome.1 ∧ L.Relates outcome.2 outcome'.2 := by
  cases hOutcome with
  | ok hState _ _ => exact ⟨rfl, hState⟩
  | error hState _ => exact ⟨rfl, hState⟩
  | lax hLax =>
      rw [hStrict] at hLax
      cases hLax

/- The result of an action that leaves the state. -/
theorem same
    (hStates : L.Relates st st')
    (result : Except Error β)
    (hShown : ∀ b, result = .ok b → Shown st.surface.written (shows b)) :
    L.Outcome shows st (result, st) (result, st') := by
  cases result with
  | ok b => exact .ok hStates List.prefix_rfl (hShown b rfl)
  | error fault => exact .error hStates List.prefix_rfl

end Outcome

end Likeness

------------------------------------------------------------
-- Actions
------------------------------------------------------------

namespace Action.Agrees

open Likeness

variable {β γ : Type} {L : Likeness α}
variable {given : List (Pattern α)}
variable {shows : β → List (Pattern α)}
variable {shows' : γ → List (Pattern α)}

theorem pure
    {b : β}
    (hShows : shows b ⊆ given) :
    Agrees L given shows (Pure.pure b) (Pure.pure b) :=
  fun _ _ hStates hGiven =>
    .ok hStates List.prefix_rfl fun p hMem => hGiven p (hShows hMem)

/- A result whose patterns are always there. -/
theorem pureShown
    {b : β}
    (hShown : ∀ w, Shown w (shows b)) :
    Agrees L given shows (Pure.pure b) (Pure.pure b) :=
  fun st _ hStates _ =>
    .ok hStates List.prefix_rfl (hShown st.surface.written)

theorem fail
    (fault : Error) :
    Agrees L given shows (Action.fail fault) (Action.fail fault) :=
  fun _ _ hStates _ => .error hStates List.prefix_rfl

/- A result that names patterns that are given. -/
theorem ofGiven
    {result : Except Error β}
    (hShows : ∀ b, result = .ok b → shows b ⊆ given) :
    Agrees L given shows (Action.ofExcept result)
      (Action.ofExcept result) :=
  fun _ _ hStates hGiven =>
    .same hStates result fun b hOk p hMem =>
      hGiven p (hShows b hOk hMem)

/- A result that names no patterns. -/
theorem ofExcept
    (result : Except Error β) :
    Agrees L given (fun _ => []) (Action.ofExcept result)
      (Action.ofExcept result) :=
  .ofGiven fun _ _ => List.nil_subset _

theorem bind
    {x x' : Action α β}
    {f f' : β → Action α γ}
    (hFirst : Agrees L given shows x x')
    (hNext : ∀ b, Agrees L (shows b ++ given) shows' (f b) (f' b)) :
    Agrees L given shows' (x >>= f) (x' >>= f') := by
  intro st st' hStates hGiven
  have hOutcome := hFirst st st' hStates hGiven
  rw [perform_bind, perform_bind]
  generalize x.perform st = outcome at hOutcome ⊢
  generalize x'.perform st' = outcome' at hOutcome ⊢
  cases hOutcome with
  | @ok b now now' hState hGrows hShown =>
      have hBoth : Shown now.surface.written (shows b ++ given) :=
        Shown.append_iff.mpr ⟨hShown, hGiven.later hGrows⟩
      exact (hNext b now now' hState hBoth).after hGrows
  | error hState hGrows => exact .error hState hGrows
  | lax hLax => exact .lax hLax

/- An action that shows nothing, and what follows it. -/
theorem andThen
    {x x' : Action α β}
    {f f' : β → Action α γ}
    (hFirst : Agrees L given (fun _ => []) x x')
    (hNext : ∀ b, Agrees L given shows' (f b) (f' b)) :
    Agrees L given shows' (x >>= f) (x' >>= f') :=
  hFirst.bind hNext

/- More may be given, and less has to be shown. -/
theorem weaken
    {x x' : Action α β}
    {given' : List (Pattern α)}
    {shows' : β → List (Pattern α)}
    (hAgrees : Agrees L given shows x x')
    (hGiven : given ⊆ given')
    (hShows : ∀ b, shows' b ⊆ shows b ++ given') :
    Agrees L given' shows' x x' := by
  intro st st' hStates hShown
  have hOutcome :=
    hAgrees st st' hStates fun p hMem => hShown p (hGiven hMem)
  generalize x.perform st = outcome at hOutcome ⊢
  generalize x'.perform st' = outcome' at hOutcome ⊢
  cases hOutcome with
  | ok hState hGrows hResult =>
      refine .ok hState hGrows fun p hMem => ?_
      rcases List.mem_append.mp (hShows _ hMem) with hNew | hOld
      · exact hResult p hNew
      · exact hShown.later hGrows p hOld
  | error hState hGrows => exact .error hState hGrows
  | lax hLax => exact .lax hLax

/- A result that is used without further actions. -/
theorem thenPure
    {x x' : Action α β}
    {f : β → γ}
    (hFirst : Agrees L given shows x x')
    (hShows : ∀ b, shows' (f b) ⊆ shows b ++ given) :
    Agrees L given shows' (x >>= fun b => Pure.pure (f b))
      (x' >>= fun b => Pure.pure (f b)) :=
  hFirst.bind fun b => pure (hShows b)

/- A value that is read and used without further actions. -/
theorem readPure
    {f : β → γ}
    (result : Except Error β)
    (hShows : ∀ b, shows' (f b) ⊆ given) :
    Agrees L given shows'
      (Action.ofExcept result >>= fun b => Pure.pure (f b))
      (Action.ofExcept result >>= fun b => Pure.pure (f b)) :=
  .thenPure (.ofExcept result) hShows

/- Attributes that are taken one after the other. -/
theorem foldlM
    {ι : Type}
    {step step' : β → ι → Action α β}
    (hStep : ∀ b i, Agrees L (shows b) shows (step b i) (step' b i))
    {b : β}
    (hShows : shows b ⊆ given)
    (is : List ι) :
    Agrees L given shows (is.foldlM step b) (is.foldlM step' b) := by
  induction is generalizing b given with
  | nil => exact pure hShows
  | cons i is ih =>
      have hFirst : Agrees L given shows (step b i) (step' b i) :=
        (hStep b i).weaken hShows fun _ => List.subset_append_left _ _
      rw [List.foldlM_cons, List.foldlM_cons]
      exact hFirst.bind fun b' => ih (List.subset_append_left _ _)

theorem draw
    {f : Surface α → Surface α}
    (hDraws : ∀ s : Surface α, s.Draws given (f s)) :
    Agrees L given (fun _ => []) (Action.draw f) (Action.draw f) :=
  fun st _ hStates hGiven =>
    .ok (hStates.draw (hDraws st.surface) hGiven)
      (hDraws st.surface).grows Shown.nil

/- A step back after a failure. -/
theorem onError
    {x x' : Action α β}
    (hFirst : Agrees L given shows x x') :
    Agrees L given shows (x.onError (RenderState.draw Surface.restore))
      (x'.onError (RenderState.draw Surface.restore)) := by
  intro st st' hStates hGiven
  have hOutcome := hFirst st st' hStates hGiven
  rw [perform_onError, perform_onError]
  generalize x.perform st = outcome at hOutcome ⊢
  generalize x'.perform st' = outcome' at hOutcome ⊢
  cases hOutcome with
  | ok hState hGrows hShown => exact .ok hState hGrows hShown
  | @error fault now now' hState hGrows =>
      have hRestored :
          now.surface.Draws [] now.surface.restore :=
        .restore now.surface
      exact
        .error (hState.draw hRestored Shown.nil)
          (hGrows.trans hRestored.grows)
  | lax hLax => exact .lax hLax

end Action.Agrees

end FixedPage
