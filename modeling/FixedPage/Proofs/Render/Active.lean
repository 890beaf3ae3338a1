import FixedPage.Proofs.Render.Replay

/-
  This file follows the runs that are under way at once: that of
  the page, those of the stored brushes that it is reading, each
  in the content of the one before, and that of a stored matrix
  or a dictionary with a part of its own. In all of their states
  the visual brushes on their stacks are the ones under way.

  Main declarations:
    * `Run`
    * `Active`
    * `Active.page_induction`
    * `Run.visuals`
    * `Active.count`
    * `Active.renderItems_fails`
    * `replays_wellFounded`
    * `renderItems_visualDepth`
-/

namespace FixedPage

open Markup

variable {α : Type}

------------------------------------------------------------
-- Runs
------------------------------------------------------------

/- Which elements the frames of a run know. -/
inductive Script where
  | page
  | stored
deriving DecidableEq, Repr

/-
  A run under way: its frames and the events that are left, or
  none when its frames are being given up.
-/
structure Run (α : Type) where
  script : Script
  stack : Stack α
  items? : Option (List Item)

namespace Run

/- The run of a page before its first event. -/
def ofPage
    (items : List Item) : Run α :=
  ⟨.page, .ofPart (.content ⟨none, 0⟩), some items⟩

/- The run of a stored brush whose element has started. -/
def ofBrush
    (items : List Item) : Run α :=
  ⟨.page, .ofOpenElement (.brush none), some items⟩

/- The run of a dictionary of its own part. -/
def ofDictionary
    (items : List Item) : Run α :=
  ⟨.stored, .ofOpenElement (.dictionary none), some items⟩

/- The run of a stored matrix whose element has started. -/
def ofMatrix
    [Scalar α]
    (items : List Item) : Run α :=
  ⟨.stored, .ofOpenElement (.matrix .identity), some items⟩

/- The number of visual brushes on the stacks of some runs. -/
def visuals
    (runs : List (Run α)) : Nat :=
  (runs.map fun run => Stack.visuals run.stack.entries).foldr
    (· + ·) 0

@[simp] theorem visuals_nil :
    visuals ([] : List (Run α)) = 0 :=
  rfl

@[simp] theorem visuals_cons
    (run : Run α)
    (outer : List (Run α)) :
    visuals (run :: outer) =
      Stack.visuals run.stack.entries + visuals outer :=
  rfl

end Run

section

variable [Scalar α]

/- What the elements do that the frames of a run know. -/
def Script.handler
    (env : Environment α) : Script → StartHandler α
| .page => startElement env (pageBrush env)
| .stored => startStored

/-
  The runs under way, the innermost one first, after `first` has
  been started. Its events are taken one by one; an element that
  starts may begin a run before it is done. A run that is done
  is left when the event that has begun it is taken, but the
  outermost run goes on without its root frame.
-/
inductive Active
    (env : Environment α)
    (first : Run α)
    (st₀ : RenderState α) :
    List (Run α) → RenderState α → Prop
| start :
    Active env first st₀ [first] st₀
| step
    {script : Script}
    {stack stack' : Stack α}
    {place : Location}
    {event : Event}
    {rest : List Item}
    {product? : Option (Product α)}
    {outer : List (Run α)}
    {st st' : RenderState α}
    (hRun :
      Active env first st₀
        (⟨script, stack, some (.ok (place, event) :: rest)⟩ :: outer)
        st)
    (hFed :
      stack.feed env (script.handler env) place st event =
        ⟨.ok product?, stack', st'⟩)
    (hGoes : outer = [] ∨ product? = none) :
    Active env first st₀ (⟨script, stack', some rest⟩ :: outer) st'
| fail
    {script : Script}
    {stack stack' : Stack α}
    {place : Location}
    {event : Event}
    {rest : List Item}
    {fault : Error}
    {outer : List (Run α)}
    {st st' : RenderState α}
    (hRun :
      Active env first st₀
        (⟨script, stack, some (.ok (place, event) :: rest)⟩ :: outer)
        st)
    (hFed :
      stack.feed env (script.handler env) place st event =
        ⟨.error fault, stack', st'⟩) :
    Active env first st₀ (⟨script, stack', none⟩ :: outer) st'
| fault
    {script : Script}
    {stack : Stack α}
    {rest : List Item}
    {fault : Error}
    {outer : List (Run α)}
    {st : RenderState α}
    (hRun :
      Active env first st₀
        (⟨script, stack, some (.error fault :: rest)⟩ :: outer) st) :
    Active env first st₀ (⟨script, stack, none⟩ :: outer) st
| truncated
    {script : Script}
    {stack : Stack α}
    {outer : List (Run α)}
    {st : RenderState α}
    (hRun :
      Active env first st₀ (⟨script, stack, some []⟩ :: outer) st)
    (hOpen : outer = [] → ∀ root, stack ≠ ⟨[root], 0⟩) :
    Active env first st₀ (⟨script, stack, none⟩ :: outer) st
| unwound
    {script : Script}
    {top : Entry α}
    {below : List (Entry α)}
    {depth : Nat}
    {outer : List (Run α)}
    {st : RenderState α}
    (hRun :
      Active env first st₀
        (⟨script, ⟨top :: below, depth⟩, none⟩ :: outer) st) :
    Active env first st₀ (⟨script, ⟨below, depth⟩, none⟩ :: outer)
      (top.frame.abort st)
| brush
    {top : Entry α}
    {below : List (Entry α)}
    {depth : Nat}
    {place : Location}
    {name key markup : String}
    {attributes : List Attribute}
    {rest inner : List Item}
    {outer : List (Run α)}
    {st st' : RenderState α}
    (hRun :
      Active env first st₀
        (⟨.page, ⟨top :: below, depth⟩,
          some (.ok (place, .startTag name attributes) :: rest)⟩
            :: outer) st)
    (hAsks :
      AsksBrush env (pageBrush env) top.frame
        ⟨place, name, attributes⟩ st key st')
    (hStored : st'.scope.get? key = some markup)
    (hInner :
      fragmentRoot env none (readText env.source markup) = .ok inner) :
    Active env first st₀
      (.ofBrush inner
        :: ⟨.page, ⟨top :: below, depth⟩,
          some (.ok (place, .startTag name attributes) :: rest)⟩
        :: outer) st'
| matrix
    {top : Entry α}
    {below : List (Entry α)}
    {depth : Nat}
    {place : Location}
    {name key markup : String}
    {attributes : List Attribute}
    {rest inner : List Item}
    {outer : List (Run α)}
    {st st' : RenderState α}
    (hRun :
      Active env first st₀
        (⟨.page, ⟨top :: below, depth⟩,
          some (.ok (place, .startTag name attributes) :: rest)⟩
            :: outer) st)
    (hAsks :
      AsksMatrix env (pageBrush env) top.frame
        ⟨place, name, attributes⟩ st key st')
    (hStored : st'.scope.get? key = some markup)
    (hInner :
      fragmentRoot env none (readText env.source markup) = .ok inner) :
    Active env first st₀
      (.ofMatrix inner
        :: ⟨.page, ⟨top :: below, depth⟩,
          some (.ok (place, .startTag name attributes) :: rest)⟩
        :: outer) st'
| dictionary
    {top : Entry α}
    {below : List (Entry α)}
    {depth : Nat}
    {place : Location}
    {source : String}
    {content : List UInt8}
    {attributes : List Attribute}
    {items rest inner : List Item}
    {outer : List (Run α)}
    {st : RenderState α}
    (hRun :
      Active env first st₀
        (⟨.page, ⟨top :: below, depth⟩,
          some (.ok (place,
            .startTag "ResourceDictionary" attributes) :: rest)⟩
            :: outer) st)
    (hFrame : top.frame = .resources false)
    (hSource :
      Element.value? ⟨place, "ResourceDictionary", attributes⟩
        "Source" = some source)
    (hPart :
      env.part?
        (PartName.resolve env.source (Text.trimString source)) =
          some content)
    (hItems :
      readBytes
        (PartName.resolve env.source (Text.trimString source))
        content = .ok items)
    (hInner :
      fragmentRoot env (some "ResourceDictionary") items =
        .ok inner) :
    Active env first st₀
      (.ofDictionary inner
        :: ⟨.page, ⟨top :: below, depth⟩,
          some (.ok (place,
            .startTag "ResourceDictionary" attributes) :: rest)⟩
        :: outer) st

/-
  Elements of a page are read by the first run and by the runs of
  stored brushes. What holds when such a run begins and is passed
  on by each event holds as long as it is under way.
-/
theorem Active.page_induction
    {env : Environment α}
    {first : Run α}
    {st₀ : RenderState α}
    {Q : List (Run α) → Stack α → List Item → RenderState α → Prop}
    (hFirst :
      ∀ stack items,
        first = ⟨.page, stack, some items⟩ → Q [] stack items st₀)
    (hBrush :
      ∀ outer items st,
        Q outer (.ofOpenElement (.brush none)) items st)
    (hStep :
      ∀ stack stack' place event rest product? outer st st',
        Active env first st₀
            (⟨.page, stack, some (.ok (place, event) :: rest)⟩
              :: outer) st →
          stack.feed env (startElement env (pageBrush env)) place st
              event = ⟨.ok product?, stack', st'⟩ →
            Q outer stack (.ok (place, event) :: rest) st →
              Q outer stack' rest st')
    {stack : Stack α}
    {items : List Item}
    {outer : List (Run α)}
    {st : RenderState α}
    (hActive :
      Active env first st₀ (⟨.page, stack, some items⟩ :: outer) st) :
    Q outer stack items st := by
  generalize hRuns : (⟨.page, stack, some items⟩ : Run α) :: outer = runs
    at hActive
  induction hActive generalizing stack items outer with
  | start =>
      cases hRuns
      exact hFirst stack items rfl
  | step hRun hFed _ ih =>
      cases hRuns
      exact hStep _ _ _ _ _ _ _ _ _ hRun hFed (ih rfl)
  | brush =>
      cases hRuns
      exact hBrush _ _ _
  | _ => cases hRuns

end

------------------------------------------------------------
-- Depth
------------------------------------------------------------

section

variable [Scalar α]

/- The brushes of a page end the visual brushes they begin. -/
theorem pageBrush_sameDepth
    (env : Environment α)
    (key : String) :
    Action.Keeps (SameDepth true) (pageBrush env key) :=
  storedBrush_sameDepth env _ key

/- An element that starts inside a frame that draws nothing. -/
theorem startStored_started
    {limit : Nat}
    (e : Element)
    (frame : Frame α)
    (st : RenderState α) :
    frame.Outcome SameDepth limit st
      ((startStored frame e).perform st) := by
  unfold startStored
  split
  · rename_i m
    rw [Action.perform_bind, Action.perform_ofExcept]
    cases startMatrix e m with
    | error fault => exact .inl rfl
    | ok m' => exact .steady rfl rfl
  · rename_i current?
    rw [Action.perform_bind, Action.perform_ofExcept]
    cases startEntry e current? with
    | error fault => exact .inl rfl
    | ok next? => exact .steady rfl rfl
  · exact .inl rfl

/- Every step of a run under way keeps the count. -/
theorem Script.counted_invariant
    (env : Environment α)
    (script : Script)
    (root : FrameKind)
    (base : Nat) :
    Stack.Invariant env (script.handler env)
      (Stack.Counted root env.options.maxVisualDepth base) := by
  cases script with
  | page =>
      exact
        countedElement_invariant env (pageBrush_sameDepth env) root
          base
  | stored =>
      exact
        FixedPage.counted_invariant startStored_started root base

/-
  The frames of the innermost run are counted on top of those of
  the runs around it, and all of them are within the limit.
-/
def ActiveCount
    (root : FrameKind)
    (limit base : Nat) :
    List (Run α) → RenderState α → Prop
| [], _ => False
| run :: outer, st =>
    (∃ root',
      (outer = [] → root' = root) ∧
        Stack.Counted root' limit (base + Run.visuals outer)
          run.stack.entries st) ∧
      (Run.visuals outer = 0 ∨ base + Run.visuals outer ≤ limit)

namespace ActiveCount

omit [Scalar α]
variable {root : FrameKind} {limit base : Nat}
variable {run : Run α} {runs outer : List (Run α)}
variable {st st' : RenderState α}

/- Only the frames of the innermost run have changed. -/
theorem rerun
    {run' : Run α}
    (hCount : ActiveCount root limit base (run :: outer) st)
    (hCounted :
      ∀ root' base',
        Stack.Counted root' limit base' run.stack.entries st →
          Stack.Counted root' limit base' run'.stack.entries st') :
    ActiveCount root limit base (run' :: outer) st' := by
  rcases hCount with ⟨⟨root', hRoot, hInner⟩, hOuter⟩
  exact ⟨⟨root', hRoot, hCounted root' _ hInner⟩, hOuter⟩

/- The visual brushes on all stacks are the ones under way. -/
theorem depth
    (hCount : ActiveCount root limit base runs st) :
    st.visualDepth = base + Run.visuals runs := by
  cases runs with
  | nil => exact hCount.elim
  | cons run outer =>
      rcases hCount with ⟨⟨root', _, hInner⟩, _⟩
      have hDepth := hInner.depth
      rw [Run.visuals_cons]
      omega

/- The visual brushes under way are within the limit. -/
theorem bound
    (hCount : ActiveCount root limit base runs st) :
    Run.visuals runs = 0 ∨ st.visualDepth ≤ limit := by
  have hDepth := hCount.depth
  cases runs with
  | nil => exact hCount.elim
  | cons run outer =>
      rcases hCount with ⟨⟨root', _, hInner⟩, hOuter⟩
      have hBound := hInner.bound
      rw [Run.visuals_cons] at hDepth ⊢
      omega

/- A run that begins with a frame that is no visual brush. -/
theorem begin
    {stack : Stack α}
    {frame : Frame α}
    {owner : Nat}
    (script : Script)
    (items? : Option (List Item))
    (hCount : ActiveCount root limit base (run :: outer) st)
    (hState : st'.visualDepth = st.visualDepth)
    (hEntries : stack.entries = [⟨frame, owner⟩])
    (hVisual : frame.kind ≠ .visual) :
    ActiveCount root limit base
      (⟨script, stack, items?⟩ :: run :: outer) st' := by
  have hDepth := hCount.depth
  have hBound := hCount.bound
  refine ⟨⟨frame.kind, nofun, ?_⟩, ?_⟩
  · rw [hEntries, ← hDepth, ← hState]
    exact .start limit frame owner rfl hVisual st'
  · omega

end ActiveCount

/- The runs under way are counted, whatever happens. -/
theorem Active.count
    {env : Environment α}
    {first : Run α}
    {root : FrameKind}
    {runs : List (Run α)}
    {st₀ st : RenderState α}
    (hFirst :
      Stack.Counted root env.options.maxVisualDepth st₀.visualDepth
        first.stack.entries st₀)
    (hActive : Active env first st₀ runs st) :
    ActiveCount root env.options.maxVisualDepth st₀.visualDepth runs
      st := by
  have hAsked :
      ∀ {frame : Frame α} {e : Element} {a : Attribute}
        {st st' : RenderState α},
        Reads env (pageBrush env) frame e st a st' →
          st'.visualDepth = st.visualDepth :=
    fun hReads => hReads.sameDepth (pageBrush_sameDepth env)
  induction hActive with
  | start => exact ⟨⟨root, fun _ => rfl, hFirst⟩, .inl rfl⟩
  | @step script stack stack' place event _ _ _ st _ hRun hFed _ ih =>
      apply ih.rerun
      intro root' base' hCounted
      have hNext :=
        (script.counted_invariant env root' base').feed place event
          stack st hCounted
      rwa [hFed] at hNext
  | @fail script stack stack' place event _ _ _ st _ hRun hFed ih =>
      apply ih.rerun
      intro root' base' hCounted
      have hNext :=
        (script.counted_invariant env root' base').feed place event
          stack st hCounted
      rwa [hFed] at hNext
  | fault _ ih => exact ih.rerun fun _ _ hCounted => hCounted
  | truncated _ _ ih => exact ih.rerun fun _ _ hCounted => hCounted
  | @unwound script top below _ _ st _ ih =>
      apply ih.rerun
      intro root' base' hCounted
      exact
        (script.counted_invariant env root' base').abort top below st
          hCounted
  | brush _ hAsks _ _ ih =>
      rcases hAsks with ⟨a, hReads, _⟩
      exact ih.begin _ _ (hAsked hReads) rfl (by simp)
  | matrix _ hAsks _ _ ih =>
      rcases hAsks with ⟨a, hReads, _⟩
      exact ih.begin _ _ (hAsked hReads) rfl (by simp)
  | dictionary _ _ _ _ _ _ ih =>
      exact ih.begin _ _ rfl rfl (by simp)

------------------------------------------------------------
-- Failures
------------------------------------------------------------

/-
  A run that is left to itself fails. The outermost one is that
  of a page, the others are those of fragments.
-/
def Run.Fails
    (env : Environment α)
    (fault : Error)
    (outermost : Prop)
    (script : Script)
    (stack : Stack α)
    (items : List Item)
    (st : RenderState α) : Prop :=
  (outermost →
      (runPart env (script.handler env) stack st items).1 =
        .error fault) ∧
    (¬ outermost →
      (runOpenFragment env (script.handler env) stack st items).1 =
        .error fault)

/- A run fails when one of its events does. -/
theorem Run.Fails.of_feed
    {env : Environment α}
    {fault : Error}
    {script : Script}
    {stack : Stack α}
    {place : Location}
    {event : Event}
    {st : RenderState α}
    (outermost : Prop)
    (rest : List Item)
    (hFails :
      (stack.feed env (script.handler env) place st event).result =
        .error fault) :
    Run.Fails env fault outermost script stack
      (.ok (place, event) :: rest) st := by
  unfold Run.Fails
  rw [runPart, runOpenFragment]
  generalize stack.feed env (script.handler env) place st event = fed
    at hFails
  rcases fed with ⟨result, next, st'⟩
  cases hFails
  exact ⟨fun _ => rfl, fun _ => rfl⟩

/- A run fails when it does after an event. -/
theorem Run.Fails.of_rest
    {env : Environment α}
    {fault : Error}
    {outermost : Prop}
    {script : Script}
    {stack stack' : Stack α}
    {place : Location}
    {event : Event}
    {rest : List Item}
    {product? : Option (Product α)}
    {st st' : RenderState α}
    (hFed :
      stack.feed env (script.handler env) place st event =
        ⟨.ok product?, stack', st'⟩)
    (hGoes : outermost ∨ product? = none)
    (hRest : Run.Fails env fault outermost script stack' rest st') :
    Run.Fails env fault outermost script stack
      (.ok (place, event) :: rest) st := by
  unfold Run.Fails at hRest ⊢
  rw [runPart, runOpenFragment, hFed]
  refine ⟨hRest.1, fun hInner => ?_⟩
  rcases hGoes with hOuter | rfl
  · exact absurd hOuter hInner
  · exact hRest.2 hInner

/- An event fails with the element that it starts. -/
theorem feed_startTag_fails
    {env : Environment α}
    {handler : StartHandler α}
    {top : Entry α}
    {below : List (Entry α)}
    {depth : Nat}
    {place : Location}
    {name : String}
    {attributes : List Attribute}
    {fault : Error}
    {st : RenderState α}
    (hFails :
      ((handler top.frame ⟨place, name, attributes⟩).perform st).1 =
        .error fault) :
    (Stack.feed env handler place ⟨top :: below, depth⟩ st
      (.startTag name attributes)).result = .error fault := by
  simp only [Stack.feed, Stack.startElement]
  generalize
    (handler top.frame ⟨place, name, attributes⟩).perform st =
      outcome at hFails ⊢
  rcases outcome with ⟨result, st'⟩
  cases hFails
  rfl

/- A stored brush fails with the run of its fragment. -/
theorem pageBrush_fails
    {env : Environment α}
    {key markup : String}
    {inner : List Item}
    {fault : Error}
    {st : RenderState α}
    (hStored : st.scope.get? key = some markup)
    (hInner :
      fragmentRoot env none (readText env.source markup) = .ok inner)
    (hFails :
      (runOpenFragment env (startElement env (pageBrush env))
        (.ofOpenElement (.brush none)) st inner).1 = .error fault) :
    ((pageBrush env key).perform st).1 = .error fault := by
  have hResource :
      (Action.resource key).perform st = (.ok markup, st) := by
    unfold Action.resource
    rw [Action.perform_ofEffect, hStored]
  rw [pageBrush_eq_readBrush]
  unfold readBrush
  rw [Action.perform_bind_ok hResource]
  apply perform_bind_fails
  unfold runFragment
  rw [Action.perform_bind, Action.perform_ofExcept, hInner]
  exact hFails

/-
  When the innermost run of a rendering fails, so does every run
  around it, and the rendering fails with the same error.
-/
theorem Active.renderItems_fails
    {env : Environment α}
    {items : List Item}
    {runs : List (Run α)}
    {st₀ st : RenderState α}
    {fault : Error}
    (hActive : Active env (.ofPage items) st₀ runs st) :
    ∀ (stack : Stack α) (left : List Item) (outer : List (Run α)),
      runs = ⟨.page, stack, some left⟩ :: outer →
        Run.Fails env fault (outer = []) .page stack left st →
          (renderItems env items st₀).1 = .error fault := by
  induction hActive with
  | start =>
      intro stack left outer hRuns hFails
      cases hRuns
      exact hFails.1 rfl
  | step _ hFed hGoes ih =>
      intro stack left outer hRuns hFails
      cases hRuns
      exact ih _ _ _ rfl (hFails.of_rest hFed hGoes)
  | fail =>
      intro stack left outer hRuns
      cases hRuns
  | fault =>
      intro stack left outer hRuns
      cases hRuns
  | truncated =>
      intro stack left outer hRuns
      cases hRuns
  | unwound =>
      intro stack left outer hRuns
      cases hRuns
  | brush _ hAsks hStored hInner ih =>
      intro stack left outer hRuns hFails
      cases hRuns
      have hBrush :=
        pageBrush_fails hStored hInner (hFails.2 (by simp))
      refine ih _ _ _ rfl (Run.Fails.of_feed _ _ ?_)
      exact feed_startTag_fails (hAsks.startElement_fails hBrush)
  | matrix =>
      intro stack left outer hRuns
      cases hRuns
  | dictionary =>
      intro stack left outer hRuns
      cases hRuns

/- A visual brush does not begin when the limit is reached. -/
theorem startElement_nestingTooDeep
    {env : Environment α}
    {lookup : BrushLookup α}
    {frame : Frame α}
    {st : RenderState α}
    (place : Location)
    (attributes : List Attribute)
    (hFrame : frame.kind = .brush)
    (hDepth : env.options.maxVisualDepth ≤ st.visualDepth) :
    ((startElement env lookup frame
      ⟨place, "VisualBrush", attributes⟩).perform st).1 =
        .error (.nestingTooDeep env.options.maxVisualDepth) := by
  rcases Frame.eq_brush_of_kind hFrame with ⟨pattern?, rfl⟩
  refine perform_bind_fails _ (perform_bind_fails _ ?_)
  apply perform_bind_fails
  unfold VisualBrush.checkDepth
  rw [Action.perform_ofEffect, if_neg (by omega)]

------------------------------------------------------------
-- Termination
------------------------------------------------------------

/-
  Reading the brush stored under the second key, from the second
  state, comes to ask for the first key in the first state.
-/
def Replays
    (env : Environment α)
    (asked asking : String × RenderState α) : Prop :=
  ∃ (markup : String) (items : List Item),
    asking.2.scope.get? asking.1 = some markup ∧
      fragmentRoot env none (readText env.source markup) = .ok items ∧
      ∃ (top : Entry α) (below : List (Entry α)) (depth : Nat)
        (place : Location) (name : String)
        (attributes : List Attribute) (rest : List Item)
        (st : RenderState α),
        Active env (.ofBrush items) asking.2
          [⟨.page, ⟨top :: below, depth⟩,
            some (.ok (place, .startTag name attributes) :: rest)⟩]
          st ∧
        AsksBrush env (pageBrush env) top.frame
          ⟨place, name, attributes⟩ st asked.1 asked.2

/- A brush is asked for with more visual brushes under way. -/
theorem Replays.deeper
    {env : Environment α}
    {asked asking : String × RenderState α}
    (hReplays : Replays env asked asking) :
    asking.2.visualDepth < asked.2.visualDepth ∧
      asked.2.visualDepth ≤ env.options.maxVisualDepth := by
  rcases hReplays with
    ⟨markup, items, _, _, top, below, depth, place, name, attributes,
      rest, st, hActive, hAsks⟩
  have hFirst :
      Stack.Counted .brush env.options.maxVisualDepth
        asking.2.visualDepth
        (Run.ofBrush items : Run α).stack.entries asking.2 :=
    .start _ (.brush none) 1 rfl (by simp) asking.2
  rcases hActive.count hFirst with ⟨⟨root, hRoot, hCounted⟩, _⟩
  rw [hRoot rfl] at hCounted
  exact hAsks.deeper (pageBrush_sameDepth env) hCounted

/- No brush asks for brushes without end. -/
theorem replays_wellFounded
    (env : Environment α) :
    WellFounded (Replays env) := by
  let left (asked : String × RenderState α) : Nat :=
    env.options.maxVisualDepth - asked.2.visualDepth
  refine Subrelation.wf ?_ (measure left).wf
  intro asked asking hReplays
  have hDeeper := hReplays.deeper
  change
    env.options.maxVisualDepth - asked.2.visualDepth <
      env.options.maxVisualDepth - asking.2.visualDepth
  omega

------------------------------------------------------------
-- Rendering
------------------------------------------------------------

/- Rendering ends as many visual brushes as it begins. -/
theorem renderItems_sameDepth
    (env : Environment α)
    (items : List Item)
    (st : RenderState α) :
    (renderItems env items st).2.visualDepth = st.visualDepth := by
  have hInv :=
    countedElement_invariant env (pageBrush_sameDepth env) .page
      st.visualDepth
  have hRoot :
      ∀ (root : Entry α) (st' : RenderState α),
        Stack.Counted .page env.options.maxVisualDepth
          st.visualDepth [root] st' →
            ∃ product after, (root.frame.finish env).perform st' =
              (.ok product, after) := by
    intro root st' hCounted
    have hKind : root.frame.kind = .page := by
      cases hCounted.grown with
      | root hBottom => exact hBottom
    exact Frame.finish_page env hKind st'
  exact
    (hInv.runPart hRoot items (.ofPart (.content ⟨none, 0⟩)) st
      (.start _ (.content ⟨none, 0⟩) 0 rfl
        (by simp [Frame.kind_content]) st)).depth

/-
  The brushes that a page refers to are read by a recursion that
  ends, as they cannot ask for each other for ever, and that has
  one solution. While the page is rendered, the visual brushes
  on the stacks of all runs are the ones under way and within
  the limit; one more fails the rendering. When it is over, as
  many are under way as before.
-/
theorem renderItems_visualDepth
    (env : Environment α)
    (items : List Item)
    (st : RenderState α) :
    let limit := env.options.maxVisualDepth
    WellFounded (Replays env) ∧
      (∀ lookup : BrushLookup α,
        (∀ key, lookup key = readBrush env lookup key) ↔
          lookup = pageBrush env) ∧
      (∀ (runs : List (Run α)) (now : RenderState α),
        Active env (.ofPage items) st runs now →
          now.visualDepth = st.visualDepth + Run.visuals runs ∧
            (st.visualDepth = 0 → now.visualDepth ≤ limit)) ∧
      (∀ (top : Entry α) (below : List (Entry α)) (depth : Nat)
        (place : Location) (attributes : List Attribute)
        (rest : List Item) (outer : List (Run α))
        (now : RenderState α),
        Active env (.ofPage items) st
            (⟨.page, ⟨top :: below, depth⟩,
              some (.ok (place,
                .startTag "VisualBrush" attributes) :: rest)⟩
                :: outer) now →
          top.frame.kind = .brush →
          limit ≤ now.visualDepth →
            (renderItems env items st).1 =
              .error (.nestingTooDeep limit)) ∧
      (renderItems env items st).2.visualDepth = st.visualDepth := by
  have hFirst :
      Stack.Counted .page env.options.maxVisualDepth st.visualDepth
        (Run.ofPage items : Run α).stack.entries st :=
    .start _ (.content ⟨none, 0⟩) 0 rfl
      (by simp [Frame.kind_content]) st
  refine
    ⟨replays_wellFounded env, fun lookup => ⟨?_, ?_⟩, ?_, ?_,
      renderItems_sameDepth env items st⟩
  · exact eq_pageBrush_of_eq_readBrush
  · rintro rfl
    exact pageBrush_eq_readBrush env
  · intro runs now hActive
    have hCount := hActive.count hFirst
    have hDepth := hCount.depth
    have hBound := hCount.bound
    exact ⟨hDepth, by omega⟩
  · intro top below depth place attributes rest outer now hActive
      hFrame hDepth
    apply hActive.renderItems_fails _ _ _ rfl
    refine Run.Fails.of_feed _ _ (feed_startTag_fails ?_)
    exact
      startElement_nestingTooDeep place attributes hFrame hDepth

end

end FixedPage
