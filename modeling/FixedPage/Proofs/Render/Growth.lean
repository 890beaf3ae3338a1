import FixedPage.Proofs.Render.Balance
import FixedPage.Proofs.Render.Drawing

/-
  This file proves that no operation on the surface is ever taken
  back. What a run under way has written is what the page begins
  with in the end, and so is what the run would write if it were
  left to itself.

  Main declarations:
    * `Grows`
    * `StartHandler.Grows`
    * `runPart_grows`
    * `Active.grows`
    * `AsksBrush.startElement_grows`
    * `Active.renderItems_reaches`
-/

namespace FixedPage

open Markup

variable {α : Type}

------------------------------------------------------------
-- Growing surfaces
------------------------------------------------------------

/- What is written on a surface is only added to. -/
def Grows
    (_ : Bool)
    (st st' : RenderState α) : Prop :=
  st.surface.written <+: st'.surface.written

namespace Grows

variable {t : Bool} {st st' st'' : RenderState α}

theorem refl
    (st : RenderState α) :
    Grows t st st :=
  List.prefix_rfl

theorem trans
    (hFirst : Grows t st st')
    (hNext : Grows t st' st'') :
    Grows t st st'' :=
  List.IsPrefix.trans hFirst hNext

/- What was not written on has grown. -/
theorem of_surface
    (hSame : st'.surface = st.surface) :
    Grows t st st' :=
  ⟨[], by rw [hSame, List.append_nil]⟩

/- Drawing that adds operations. -/
theorem draw
    {f : Surface α → Surface α}
    {w : List (Operation α)}
    (hWritten : (f st.surface).written = st.surface.written ++ w) :
    Grows t st (st.draw f) :=
  ⟨w, hWritten.symm⟩

/- A bracket that is closed adds an operation. -/
theorem leave
    (b : Bracket)
    (st : RenderState α) :
    Grows t st (st.draw b.leave) := by
  cases b with
  | save => exact .draw st.surface.written_restore
  | group => exact .draw st.surface.written_closeGroup

/- A bracket that is opened adds an operation. -/
theorem enter
    (b : Bracket)
    (st : RenderState α) :
    Grows t st (st.draw b.enter) := by
  cases b with
  | save => exact .draw st.surface.written_save
  | group => exact .draw st.surface.written_pushGroup

end Grows

instance [Scalar α] : Steady (Grows (α := α)) where
  refl _ := .refl
  trans := .trans
  weaken hGrows := hGrows
  record st op _ := .draw (st.surface.written_record op)
  transform st m := .draw (st.surface.written_transform m)
  bracket _ b hInner :=
    .trans (.trans (.enter b _) hInner) (.leave b _)
  caches _ _ _ _ _ := .of_surface rfl

/- What is on one level has grown. -/
theorem OnLevel.grows
    {t : Bool}
    {st st' : RenderState α}
    (hLevel : OnLevel t st st') :
    Grows true st st' := by
  rcases hLevel.nested with ⟨w, hWritten, -⟩
  exact ⟨w, hWritten.symm⟩

------------------------------------------------------------
-- Steps
------------------------------------------------------------

/- Closing brackets writes on the surface. -/
theorem Closes.grows
    {bs : List Bracket}
    {st closed : RenderState α}
    (hCloses : Closes Grows bs st closed) :
    Grows true st closed := by
  induction hCloses with
  | done hAfter => exact hAfter
  | leave hInner _ ih => exact .trans (.trans hInner (.leave _ _)) ih

/- Opening the groups of an element writes on the surface. -/
theorem openGroups_grows
    (o : FrameOutline)
    (st : RenderState α) :
    Grows true st (st.draw (openGroups o)) := by
  unfold openGroups
  cases o.inMask <;> cases o.inOpacity
  · exact .refl st
  · exact .enter .group st
  · exact .enter .group st
  · exact .trans (.enter .group st) (.enter .group _)

section

variable [Scalar α]

/- Opening the group of a visual brush writes on the surface. -/
theorem VisualBrush.openGroup_grows
    (v : VisualBrush α)
    (st : RenderState α) :
    Grows true st (st.draw v.openGroup) := by
  rcases written_openGroup v st.surface with ⟨turns, -, hWritten⟩
  exact .draw hWritten

namespace Frame

variable {frame : Frame α} {st : RenderState α}

/- An element that starts writes on the surface. -/
theorem Outcome.grows
    {limit : Nat}
    {outcome :
      Except Error (Frame α × Option (Frame α)) × RenderState α}
    (hOutcome : frame.Outcome Grows limit st outcome) :
    Grows true st outcome.2 := by
  rcases outcome with ⟨fault | ⟨frame', child?⟩, st'⟩
  · rcases hOutcome with hState | ⟨_, _, _, rfl⟩
    · exact hState
    · exact .of_surface rfl
  · cases hOutcome with
    | steady _ hState => exact hState
    | loaded _ _ hState =>
        rcases hState with ⟨_, _, rfl⟩
        exact .of_surface rfl
    | bare _ _ _ _ hState => exact hState
    | drawing _ _ hOpened =>
        rcases hOpened.state with ⟨read, hRead, rfl⟩
        exact
          .trans (.trans (.enter .save st) hRead)
            (openGroups_grows _ read)
    | visual v _ _ =>
        exact .trans (v.openGroup_grows st) (.of_surface rfl)
    | resources _ _ => exact .of_surface rfl

omit [Scalar α] in
/- A frame that receives a product writes on the surface. -/
theorem Received.grows
    {frame' : Frame α}
    {product : Product α}
    {st' : RenderState α}
    (hReceived : frame.Received Grows product st frame' st') :
    Grows true st st' := by
  cases hReceived with
  | steady _ hState => exact hState
  | masked _ _ _ => exact .enter .group st
  | visual _ _ _ _ => exact .trans (.leave .group st) (.leave .save _)
  | ended _ _ => exact .of_surface rfl
  | stored _ _ hState =>
      rcases hState with ⟨_, _, rfl⟩
      exact .of_surface rfl

omit [Scalar α] in
/- A frame that is released writes on the surface. -/
theorem Released.grows
    {st' : RenderState α}
    (hReleased : frame.Released Grows st st') :
    Grows true st st' := by
  rcases hReleased with ⟨closed, hCloses, rfl⟩
  exact .trans hCloses.grows (.of_surface rfl)

/- A frame that is finished, or fails to be, writes. -/
theorem finish_grows
    (env : Environment α)
    (frame : Frame α)
    (st : RenderState α) :
    Grows true st ((frame.finish env).perform st).2 := by
  have hFinish := Frame.finish_outcome (R := Grows) env frame st
  rcases hOutcome : (frame.finish env).perform st with
    ⟨fault | product, st'⟩
  · rw [hOutcome] at hFinish
    exact hFinish.2
  · rw [hOutcome, Frame.Finish] at hFinish
    split at hFinish
    · rw [hFinish.2]
      exact .of_surface rfl
    · exact hFinish.2.grows

end Frame

/- Whatever element starts in whatever frame, it writes. -/
def StartHandler.Grows
    (handler : StartHandler α) : Prop :=
  ∀ frame e, (handler frame e).Keeps (FixedPage.Grows true)

/- Stored values are read without writing. -/
theorem startStored_grows :
    StartHandler.Grows (startStored (α := α)) := by
  intro frame e
  unfold startStored
  split
  · exact .readPure _ _
  · exact .readPure _ _
  · exact .fail _

/- Elements of a page write when looking up brushes does. -/
theorem startElement_grows
    (env : Environment α)
    {lookup : BrushLookup α}
    (hLookup : ∀ key, (lookup key).Keeps (Grows true)) :
    StartHandler.Grows (startElement env lookup) :=
  fun frame e st =>
    (startElement_started env hLookup e frame st).grows

/- Brushes of a page write on the surface. -/
theorem pageBrush_grows
    (env : Environment α)
    (key : String) :
    (pageBrush env key).Keeps (Grows true) :=
  fun st => (storedBrush_onLevel env _ key st).grows

/- Whatever the script, elements write. -/
theorem Script.grows
    (env : Environment α)
    (script : Script) :
    (script.handler env).Grows := by
  cases script with
  | page => exact startElement_grows env (pageBrush_grows env)
  | stored => exact startStored_grows

------------------------------------------------------------
-- Runs
------------------------------------------------------------

variable {env : Environment α} {handler : StartHandler α}

/- An event writes on the surface. -/
theorem Stack.feed_grows
    (env : Environment α)
    (hHandler : handler.Grows)
    (stack : Stack α)
    (place : Location)
    (event : Event)
    (st : RenderState α) :
    Grows true st (stack.feed env handler place st event).state := by
  rcases stack with ⟨entries, depth⟩
  cases event with
  | text content => exact .refl st
  | startTag name attributes =>
      cases entries with
      | nil => exact .refl st
      | cons top below =>
          have hStart := hHandler top.frame ⟨place, name, attributes⟩ st
          unfold feed startElement
          dsimp only
          split <;> simp_all
  | endTag name =>
      cases entries with
      | nil => exact .refl st
      | cons top below =>
          have hReceives :
              ∀ (frame : Frame α) (product : Product α)
                (st : RenderState α),
                Grows true st (frame.endChild env name product st).2 :=
            fun frame product st =>
              (frame.endChild_received env name product st).grows
          have hFinish := top.frame.finish_grows env st
          unfold feed endElement
          dsimp only
          split
          · exact hReceives _ _ _
          · split
            · rename_i hDone
              rw [hDone] at hFinish
              exact hFinish.trans (top.frame.abort_released _).grows
            · rename_i hDone
              rw [hDone] at hFinish
              exact hFinish
            · rename_i hDone
              rw [hDone] at hFinish
              exact hFinish.trans (hReceives _ _ _)

/- Giving up frames writes on the surface. -/
theorem Stack.unwind_grows
    (stack : Stack α)
    (st : RenderState α) :
    Grows true st (stack.unwind st) := by
  rcases stack with ⟨entries, depth⟩
  unfold unwind
  dsimp only
  induction entries generalizing st with
  | nil => exact .refl st
  | cons top below ih =>
      exact (top.frame.abort_released st).grows.trans (ih _)

/- The events of a fragment write on the surface. -/
theorem runOpenFragment_grows
    (hHandler : handler.Grows)
    (items : List Item)
    (stack : Stack α)
    (st : RenderState α) :
    Grows true st (runOpenFragment env handler stack st items).2 := by
  induction items generalizing stack st with
  | nil => exact stack.unwind_grows st
  | cons item rest ih =>
      rcases item with fault | ⟨place, event⟩
      · exact stack.unwind_grows st
      · have hFed :=
          stack.feed_grows env hHandler place event st
        rw [runOpenFragment]
        generalize stack.feed env handler place st event = fed at hFed
        rcases fed with ⟨fault | product?, next, st'⟩
        · exact hFed.trans (next.unwind_grows st')
        · cases product? with
          | none => exact hFed.trans (ih next st')
          | some product => exact hFed

/- The events of a part write on the surface. -/
theorem runPart_grows
    (hHandler : handler.Grows)
    (items : List Item)
    (stack : Stack α)
    (st : RenderState α) :
    Grows true st (runPart env handler stack st items).2 := by
  induction items generalizing stack st with
  | nil =>
      unfold runPart endPart
      split
      · exact Frame.finish_grows env _ st
      · exact Stack.unwind_grows _ st
  | cons item rest ih =>
      rcases item with fault | ⟨place, event⟩
      · exact stack.unwind_grows st
      · have hFed :=
          stack.feed_grows env hHandler place event st
        rw [runPart]
        generalize stack.feed env handler place st event = fed at hFed
        rcases fed with ⟨fault | product?, next, st'⟩
        · exact hFed.trans (next.unwind_grows st')
        · exact hFed.trans (ih next st')

------------------------------------------------------------
-- Brushes that are asked for
------------------------------------------------------------

/- An action comes to a state that it then adds to. -/
def Action.Passes
    {β : Type}
    (x : Action α β)
    (st mid : RenderState α) : Prop :=
  Grows true mid (x.perform st).2

namespace Action.Passes

variable {β γ : Type} {st mid : RenderState α}

omit [Scalar α] in
/- What follows adds to the state. -/
theorem bind
    {x : Action α β}
    {f : β → Action α γ}
    (hFirst : x.Passes st mid)
    (hNext : ∀ b, (f b).Keeps (Grows true)) :
    (x >>= f).Passes st mid := by
  unfold Passes at hFirst ⊢
  rw [perform_bind]
  generalize x.perform st = outcome at hFirst ⊢
  rcases outcome with ⟨fault | b, st'⟩
  · exact hFirst
  · exact hFirst.trans (hNext b st')

omit [Scalar α] in
/- What was done before does not matter. -/
theorem after
    {x : Action α β}
    {f : β → Action α γ}
    {b : β}
    {st' : RenderState α}
    (hOk : x.perform st = (.ok b, st'))
    (hNext : (f b).Passes st' mid) :
    (x >>= f).Passes st mid := by
  unfold Passes
  rwa [perform_bind_ok hOk]

omit [Scalar α] in
/- A step back after a failure adds to the state. -/
theorem onError
    {x : Action α β}
    (hFirst : x.Passes st mid) :
    (x.onError (RenderState.draw Surface.restore)).Passes st mid := by
  unfold Passes at hFirst ⊢
  rw [perform_onError]
  generalize x.perform st = outcome at hFirst ⊢
  rcases outcome with ⟨fault | b, st'⟩
  · exact hFirst.trans (.leave .save st')
  · exact hFirst

/- The attributes that are left add to the state. -/
theorem attributes
    {take : β → Attribute → Action α β}
    {init b : β}
    {as : List Attribute}
    {a : Attribute}
    {st' : RenderState α}
    (hNext : TakesNext take init as st b a st')
    (hKeeps : ∀ b a, (take b a).Keeps (Grows true))
    (hFirst : (take b a).Passes st' mid) :
    Action.Passes (as.foldlM take init) st mid := by
  rcases hNext with ⟨before, rest, rfl, hBefore⟩
  rw [List.foldlM_append]
  refine .after hBefore ?_
  rw [List.foldlM_cons]
  exact hFirst.bind fun b => .foldlM hKeeps b rest

end Action.Passes

section

variable {lookup : BrushLookup α} {key : String}
variable {st mid : RenderState α} {a : Attribute}

/- A brush that is asked for is read on the way. -/
theorem brushValue_passes
    (env : Environment α)
    (e : Element)
    (name : String)
    {value : String}
    (hKey : Value.resourceKey? value = some key)
    (hLookup : (lookup key).Passes st mid) :
    (brushValue env lookup e name value).Passes st mid := by
  unfold brushValue
  rw [hKey]
  exact hLookup

/- So is the mask of a canvas. -/
theorem CanvasStyle.takeAttribute_passes
    (env : Environment α)
    (e : Element)
    (s : CanvasStyle α)
    (hName : a.name ∈ brushAttributes "Canvas")
    (hKey : Value.resourceKey? a.value = some key)
    (hLookup : (lookup key).Passes st mid) :
    (takeAttribute env lookup e s a).Passes st mid := by
  have hValue :=
    brushValue_passes env e a.name hKey hLookup
  simp only [brushAttributes, List.mem_cons, List.not_mem_nil,
    or_false] at hName
  rw [hName] at hValue
  unfold takeAttribute
  simp only [hName]
  exact hValue.bind fun _ => .pure _

/- So is a brush of a path. -/
theorem PathState.takeAttribute_passes
    (env : Environment α)
    (e : Element)
    (s : PathState α)
    (hName : a.name ∈ brushAttributes "Path")
    (hKey : Value.resourceKey? a.value = some key)
    (hLookup : (lookup key).Passes st mid) :
    (takeAttribute env lookup e s a).Passes st mid := by
  have hValue :=
    brushValue_passes env e a.name hKey hLookup
  simp only [brushAttributes, List.mem_cons, List.not_mem_nil,
    or_false] at hName
  unfold takeAttribute
  rcases hName with hName | hName | hName <;>
    · rw [hName] at hValue
      simp only [hName]
      exact hValue.bind fun _ => .pure _

/- So is a brush of a glyph run. -/
theorem GlyphRun.takeAttribute_passes
    (env : Environment α)
    (e : Element)
    (run : GlyphRun α)
    (hName : a.name ∈ brushAttributes "Glyphs")
    (hKey : Value.resourceKey? a.value = some key)
    (hLookup : (lookup key).Passes st mid) :
    (takeAttribute env lookup e run a).Passes st mid := by
  have hValue :=
    brushValue_passes env e a.name hKey hLookup
  simp only [brushAttributes, List.mem_cons, List.not_mem_nil,
    or_false] at hName
  unfold takeAttribute
  rcases hName with hName | hName <;>
    · rw [hName] at hValue
      simp only [hName]
      exact hValue.bind fun _ => .pure _

/- A brush that an element asks for is read on the way. -/
theorem AsksBrush.startElement_grows
    {frame : Frame α}
    {e : Element}
    {st' : RenderState α}
    (hKeeps : ∀ key, (lookup key).Keeps (Grows true))
    (hAsks : AsksBrush env lookup frame e st key st')
    (hLookup : (lookup key).Passes st' mid) :
    (startElement env lookup frame e).Passes st mid := by
  rcases hAsks with ⟨a, hReads, hBrush, hKey⟩
  have hGroups :
      ∀ (mask opacity : Bool) (st : RenderState α),
        Grows true st
          (st.draw fun s =>
            onlyIf mask Surface.pushGroup
              (onlyIf opacity Surface.pushGroup s)) :=
    fun mask opacity st =>
      openGroups_grows
        { FrameOutline.bare .canvas with
          inMask := mask, inOpacity := opacity } st
  cases hReads with
  | canvas s hFrame hName hNext =>
      rw [hName] at hBrush
      rw [startElement_content hFrame (by simp [hName])]
      refine .bind ?_ fun _ => .pure _
      unfold startContent
      simp only [hName]
      refine .bind ?_ fun _ => .pure _
      unfold CanvasFrame.begin CanvasStyle.read
      refine .after (Action.perform_draw _ _) (.bind (.onError ?_) ?_)
      · have hPassed :=
          s.takeAttribute_passes env e hBrush hKey hLookup
        refine .bind (.attributes hNext ?_ hPassed) ?_
        · exact fun style a =>
            CanvasStyle.takeAttribute_keeps env hKeeps e style a
              fun _ => rfl
        · exact fun style =>
            .bind (clipToAny_keeps style.clip?) fun _ => .pure _
      · exact fun style => .bind (hGroups _ _) fun _ => .pure _
  | path s hFrame hName hNext =>
      rw [hName] at hBrush
      rw [startElement_content hFrame (by simp [hName])]
      refine .bind ?_ fun _ => .pure _
      unfold startContent
      simp only [hName]
      refine .bind ?_ fun _ => .pure _
      unfold PathFrame.begin
      refine .after (Action.perform_draw _ _) (.bind (.onError ?_) ?_)
      · have hPassed :=
          s.takeAttribute_passes env e hBrush hKey hLookup
        refine .attributes hNext (fun state a => ?_) hPassed
        exact
          PathState.takeAttribute_keeps env hKeeps e state a
            fun _ => rfl
      · exact fun state => .bind (hGroups false _) fun _ => .pure _
  | glyphs run s hFrame hName hRun hNext =>
      rw [hName] at hBrush
      rw [startElement_content hFrame (by simp [hName])]
      refine .bind ?_ fun _ => .pure _
      unfold startContent
      simp only [hName]
      refine .bind ?_ fun _ => .pure _
      unfold GlyphsFrame.begin
      refine .after (by rw [Action.perform_ofExcept, hRun]) ?_
      refine .after (Action.perform_draw _ _) (.bind (.onError ?_) ?_)
      · have hPassed :=
          s.takeAttribute_passes env e hBrush hKey hLookup
        refine .attributes hNext (fun run a => ?_) hPassed
        exact
          GlyphRun.takeAttribute_keeps env hKeeps e run a fun _ => rfl
      · exact fun run => .bind (hGroups _ _) fun _ => .pure _
  | geometry f s _ _ hName =>
      rw [hName] at hBrush
      simp [brushAttributes] at hBrush
  | brush grammar extend s _ hGrammar =>
      exact absurd hBrush (brushAttributes_of_grammar hGrammar)

/- Reading attributes writes on the surface. -/
theorem Reads.grows
    {frame : Frame α}
    {e : Element}
    {st' : RenderState α}
    (hKeeps : ∀ key, (lookup key).Keeps (Grows true))
    (hReads : Reads env lookup frame e st a st') :
    Grows true st st' := by
  have hSaved :
      ∀ {st' : RenderState α},
        Grows true (st.draw Surface.save) st' → Grows true st st' :=
    fun hRead => .trans (.enter .save st) hRead
  cases hReads with
  | canvas s _ _ hNext =>
      exact
        hSaved
          (hNext.keeps fun style a =>
            CanvasStyle.takeAttribute_keeps env hKeeps e style a
              fun _ => rfl)
  | path s _ _ hNext =>
      exact
        hSaved
          (hNext.keeps fun state a =>
            PathState.takeAttribute_keeps env hKeeps e state a
              fun _ => rfl)
  | glyphs run s _ _ _ hNext =>
      exact
        hSaved
          (hNext.keeps fun run a =>
            GlyphRun.takeAttribute_keeps env hKeeps e run a
              fun _ => rfl)
  | geometry f s _ _ _ hNext =>
      exact
        hNext.keeps (R := Grows true)
          (PathFrame.takeGeometryAttribute_keeps env e)
  | brush grammar extend s _ _ _ hNext =>
      have hSame :=
        hNext.keeps (R := Eq)
          (BrushStyle.takeAttribute_keeps env grammar e)
      rw [hSame]
      exact .refl _

end

------------------------------------------------------------
-- Runs under way
------------------------------------------------------------

/- The runs under way only add to the surface. -/
theorem Active.grows
    {first : Run α}
    {runs : List (Run α)}
    {st₀ st : RenderState α}
    (hActive : Active env first st₀ runs st) :
    Grows true st₀ st := by
  have hReads :
      ∀ {frame : Frame α} {e : Element} {a : Attribute}
        {st st' : RenderState α},
        Reads env (pageBrush env) frame e st a st' →
          Grows true st st' :=
    fun hReads => hReads.grows (pageBrush_grows env)
  induction hActive with
  | start => exact .refl _
  | @step script stack _ place event _ _ _ st _ _ hFed _ ih =>
      have hNext :=
        stack.feed_grows env (script.grows env) place event st
      rw [hFed] at hNext
      exact ih.trans hNext
  | @fail script stack _ place event _ _ _ st _ _ hFed ih =>
      have hNext :=
        stack.feed_grows env (script.grows env) place event st
      rw [hFed] at hNext
      exact ih.trans hNext
  | fault _ ih => exact ih
  | truncated _ _ ih => exact ih
  | @unwound _ top _ _ _ st _ ih =>
      exact ih.trans (top.frame.abort_released st).grows
  | brush _ hAsks _ _ ih =>
      rcases hAsks with ⟨a, hRead, _⟩
      exact ih.trans (hReads hRead)
  | matrix _ hAsks _ _ ih =>
      rcases hAsks with ⟨a, hRead, _⟩
      exact ih.trans (hReads hRead)
  | dictionary _ _ _ _ _ _ ih => exact ih

/-
  What a run of a page has left when it is over: the outermost
  one is that of the page, the others are those of fragments.
-/
def Run.outcome
    (env : Environment α)
    (outer : List (Run α))
    (stack : Stack α)
    (items : List Item)
    (st : RenderState α) : RenderState α :=
  match outer with
  | [] => (runPart env (Script.page.handler env) stack st items).2
  | _ :: _ =>
      (runOpenFragment env (Script.page.handler env) stack st items).2

/- The events that are left add to the surface. -/
theorem Run.outcome_grows
    (env : Environment α)
    (outer : List (Run α))
    (stack : Stack α)
    (items : List Item)
    (st : RenderState α) :
    Grows true st (Run.outcome env outer stack items st) := by
  cases outer with
  | nil => exact runPart_grows (Script.page.grows env) items stack st
  | cons run outer =>
      exact
        runOpenFragment_grows (Script.page.grows env) items stack st

/- So they do after the next event. -/
theorem Run.outcome_feed
    (outer : List (Run α))
    (stack : Stack α)
    (place : Location)
    (event : Event)
    (rest : List Item)
    (st : RenderState α) :
    Grows true
      (stack.feed env (Script.page.handler env) place st event).state
      (Run.outcome env outer stack (.ok (place, event) :: rest) st) := by
  have hLater (next : Stack α) (st : RenderState α) :=
    Run.outcome_grows env outer next rest st
  unfold Run.outcome at hLater ⊢
  cases outer with
  | nil =>
      dsimp only at hLater ⊢
      rw [runPart]
      rcases stack.feed env (Script.page.handler env) place st event with
        ⟨fault | product?, next, st'⟩
      · exact next.unwind_grows st'
      · exact hLater next st'
  | cons run outer =>
      dsimp only at hLater ⊢
      rw [runOpenFragment]
      rcases stack.feed env (Script.page.handler env) place st event with
        ⟨fault | _ | product, next, st'⟩
      · exact next.unwind_grows st'
      · exact hLater next st'
      · exact .refl st'

/- A start tag leaves what the element that starts leaves. -/
theorem Stack.state_feed_startTag
    {handler : StartHandler α}
    (top : Entry α)
    (below : List (Entry α))
    (depth : Nat)
    (place : Location)
    (name : String)
    (attributes : List Attribute)
    (st : RenderState α) :
    (Stack.feed env handler place ⟨top :: below, depth⟩ st
        (.startTag name attributes)).state =
      ((handler top.frame ⟨place, name, attributes⟩).perform st).2 := by
  unfold feed startElement
  dsimp only
  rcases (handler top.frame ⟨place, name, attributes⟩).perform st with
    ⟨fault | ⟨frame, child?⟩, st'⟩ <;> rfl

/- A stored brush leaves what the run of its fragment leaves. -/
theorem pageBrush_passes
    {key markup : String}
    {inner : List Item}
    {run : Run α}
    {outer : List (Run α)}
    {st mid : RenderState α}
    (hStored : st.scope.get? key = some markup)
    (hInner :
      fragmentRoot env none (readText env.source markup) = .ok inner)
    (hPassed :
      Grows true mid
        (Run.outcome env (run :: outer)
          (.ofOpenElement (.brush none)) inner st)) :
    (pageBrush env key).Passes st mid := by
  have hResource :
      (Action.resource key).perform st = (.ok markup, st) := by
    unfold Action.resource
    rw [Action.perform_ofEffect, hStored]
  rw [pageBrush_eq_readBrush]
  unfold readBrush
  refine .after hResource (.bind ?_ fun product => ?_)
  · unfold runFragment
    refine .after (by rw [Action.perform_ofExcept, hInner]) ?_
    exact hPassed
  · cases product <;> exact .pure _

/-
  What the innermost run of a page would leave if it were left to
  itself, the page begins with in the end.
-/
theorem Active.renderItems_reaches
    {items : List Item}
    {runs : List (Run α)}
    {st₀ st : RenderState α}
    (hActive : Active env (.ofPage items) st₀ runs st) :
    ∀ (stack : Stack α) (left : List Item) (outer : List (Run α)),
      runs = ⟨.page, stack, some left⟩ :: outer →
        Grows true (Run.outcome env outer stack left st)
          (renderItems env items st₀).2 := by
  induction hActive with
  | start =>
      intro stack left outer hRuns
      cases hRuns
      exact .refl _
  | @step script stack _ place event rest _ outer st st' _ hFed hGoes
      ih =>
      intro stack left outer hRuns
      cases hRuns
      have hLater := ih _ _ _ rfl
      unfold Run.outcome at hLater ⊢
      cases outer with
      | nil =>
          dsimp only at hLater ⊢
          rwa [runPart, hFed] at hLater
      | cons run outer =>
          rcases hGoes with hNil | rfl
          · cases hNil
          · dsimp only at hLater ⊢
            rwa [runOpenFragment, hFed] at hLater
  | brush _ hAsks hStored hInner ih =>
      intro stack left outer hRuns
      cases hRuns
      refine .trans (.trans ?_ (Run.outcome_feed ..)) (ih _ _ _ rfl)
      rw [Stack.state_feed_startTag]
      exact
        hAsks.startElement_grows (pageBrush_grows env)
          (pageBrush_passes hStored hInner (.refl _))
  | fail =>
      intro stack left outer hRuns
      cases hRuns
  | fault =>
      intro stack left outer hRuns
      cases hRuns
  | truncated =>
      intro stack left outer hRuns
      cases hRuns
  | unwound =>
      intro stack left outer hRuns
      cases hRuns
  | matrix =>
      intro stack left outer hRuns
      cases hRuns
  | dictionary =>
      intro stack left outer hRuns
      cases hRuns

end

end FixedPage
