import FixedPage.Proofs.Render.Balance
import FixedPage.Proofs.Render.Scope
import FixedPage.Proofs.Scalar.Exact
import FixedPage.Proofs.Surface.Brackets

/-
  This file proves that an element that draws leaves nothing
  behind that a later one depends on. The elements of a page are
  drawn after others as they are drawn alone, but for the numbers
  of their groups.

  The resources of a page draw nothing. What they change is the
  dictionaries in scope.

  Main declarations:
    * `RenderState.SameButScope`
    * `filling_invariant`
    * `Elements.take_resources`
    * `Elements.take_page`
    * `renderItems_alike`
    * `RenderState.Fresh`
    * `renderItems_siblings`
-/

namespace FixedPage

open Markup

variable {α : Type}

------------------------------------------------------------
-- Scopes
------------------------------------------------------------

/- The states differ at most in the dictionaries in scope. -/
def RenderState.SameButScope
    (st st' : RenderState α) : Prop :=
  ∃ scope : ResourceScope, st' = { st with scope := scope }

instance : Std.Refl (RenderState.SameButScope (α := α)) where
  refl st := ⟨st.scope, rfl⟩

instance :
    IsTrans (RenderState α) RenderState.SameButScope where
  trans := by
    rintro st st' st'' ⟨scope, rfl⟩ ⟨scope', rfl⟩
    exact ⟨scope', rfl⟩

/- What changes one dictionary changes no more than those. -/
theorem RenderState.SameOuter.butScope
    {st st' : RenderState α}
    (hOuter : st.SameOuter st') :
    st.SameButScope st' := by
  rcases hOuter with ⟨scope, _, hState⟩
  exact ⟨scope, hState⟩

------------------------------------------------------------
-- Filling dictionaries
------------------------------------------------------------

/- Every frame fills dictionaries, and only they may change. -/
structure OnlyFilling
    (base : RenderState α)
    (entries : List (Entry α))
    (st : RenderState α) : Prop where
  fills : ∀ entry ∈ entries, entry.frame.kind.fills = true
  state : base.SameButScope st

namespace OnlyFilling

variable {base st st' : RenderState α}
variable {top : Entry α} {entries : List (Entry α)}

theorem top_fills
    (hFilling : OnlyFilling base (top :: entries) st) :
    top.frame.kind.fills = true :=
  hFilling.fills top (.head _)

theorem tail
    (hFilling : OnlyFilling base (top :: entries) st) :
    OnlyFilling base entries st :=
  ⟨(List.forall_mem_cons.mp hFilling.fills).2, hFilling.state⟩

/- A frame that fills takes the place of the top frame. -/
theorem retop
    {frame : Frame α}
    (hFilling : OnlyFilling base (top :: entries) st)
    (hFills : frame.kind.fills = true)
    (hState : st.SameButScope st') :
    OnlyFilling base (⟨frame, top.owner⟩ :: entries) st' :=
  ⟨List.forall_mem_cons.mpr ⟨hFills, hFilling.tail.fills⟩,
    IsTrans.trans _ _ _ hFilling.state hState⟩

/- A frame that fills lies on the others. -/
theorem push
    {child? : Option (Frame α)}
    (hFilling : OnlyFilling base entries st)
    (hChild : ∀ child ∈ child?, child.kind.fills = true)
    (depth : Nat) :
    OnlyFilling base
      ((child?.map fun child => ⟨child, depth⟩).toList ++ entries)
      st := by
  refine ⟨?_, hFilling.state⟩
  intro entry hMem
  rcases List.mem_append.mp hMem with hTop | hBelow
  · rw [Option.mem_toList, Option.map_eq_some_iff] at hTop
    rcases hTop with ⟨child, hSome, rfl⟩
    exact hChild child hSome
  · exact hFilling.fills entry hBelow

end OnlyFilling

/- Frames that fill dictionaries are owners or dictionaries. -/
theorem Frame.eq_of_fills
    {frame : Frame α}
    (hFills : frame.kind.fills = true) :
    (∃ remote, frame = .resources remote) ∨
      ∃ current?, frame = .dictionary current? := by
  by_cases hKind : frame.kind = .dictionary
  · right
    cases frame with
    | dictionary current? => exact ⟨current?, rfl⟩
    | content f =>
        rw [Frame.kind_content] at hKind
        split at hKind <;> cases hKind
    | _ => cases hKind
  · exact .inl (Frame.resources_of_fills hFills hKind)

section

variable [Scalar α] {env : Environment α}
variable {frame : Frame α}

/- The end of a child changes the scope alone. -/
theorem Frame.endChild_fills
    (env : Environment α)
    (hFills : frame.kind.fills = true)
    (name : String)
    (product : Product α)
    (st : RenderState α) :
    (frame.endChild env name product st).1.kind.fills = true ∧
      st.SameButScope (frame.endChild env name product st).2 := by
  rcases Frame.eq_of_fills hFills with
    ⟨remote, rfl⟩ | ⟨current?, rfl⟩
  · exact ⟨rfl, Std.Refl.refl st⟩
  · exact ⟨rfl, (endEntry_sameOuter current? name st).butScope⟩

/- Nothing happens when the frame is finished. -/
theorem Frame.finish_fills
    (hFills : frame.kind.fills = true)
    (st : RenderState α) :
    (frame.finish env).perform st = (.ok .none, st) := by
  rcases Frame.eq_of_fills hFills with
    ⟨remote, rfl⟩ | ⟨current?, rfl⟩
  · rfl
  · rfl

omit [Scalar α] in
/- Nothing happens when the frame is given up. -/
theorem Frame.abort_fills
    (hFills : frame.kind.fills = true)
    (st : RenderState α) :
    frame.abort st = st := by
  rcases Frame.eq_of_fills hFills with
    ⟨remote, rfl⟩ | ⟨current?, rfl⟩
  · rfl
  · rfl

/- An element inside an owner changes the scope alone. -/
theorem startResources_fills
    (env : Environment α)
    (remote : Bool)
    (e : Element)
    (st : RenderState α) :
    match (startResources env remote e).perform st with
    | (.error _, st') => st.SameButScope st'
    | (.ok (_, child?), st') =>
        (∀ child ∈ child?, child.kind.fills = true) ∧
          st.SameButScope st' := by
  unfold startResources
  by_cases hKnown : (e.name != "ResourceDictionary" || remote) = true
  · rw [if_pos hKnown, Action.perform_fail]
    exact ⟨st.scope, rfl⟩
  · rw [if_neg hKnown]
    cases e.value? "Source" with
    | none =>
        dsimp only
        rw [Action.perform_pure]
        refine ⟨?_, ⟨st.scope, rfl⟩⟩
        rintro child hChild
        cases hChild
        rfl
    | some source =>
        have hLoaded := (loadDictionary_keeps env source st).butScope
        dsimp only
        rw [Action.perform_bind]
        generalize (loadDictionary env source).perform st = outcome
          at hLoaded ⊢
        rcases outcome with ⟨fault | _, st'⟩
        · exact hLoaded
        · exact ⟨by simp, hLoaded⟩

/- An element that starts changes the scope alone. -/
theorem startElement_fills
    (env : Environment α)
    (lookup : BrushLookup α)
    (hFills : frame.kind.fills = true)
    (e : Element)
    (st : RenderState α) :
    match (startElement env lookup frame e).perform st with
    | (.error _, st') => st.SameButScope st'
    | (.ok (frame', child?), st') =>
        frame'.kind.fills = true ∧
          (∀ child ∈ child?, child.kind.fills = true) ∧
            st.SameButScope st' := by
  rcases Frame.eq_of_fills hFills with
    ⟨remote, rfl⟩ | ⟨current?, rfl⟩
  · have hStart := startResources_fills env remote e st
    rw [startElement, Action.perform_bind]
    generalize (startResources env remote e).perform st = outcome
      at hStart ⊢
    rcases outcome with ⟨fault | ⟨remote', child?⟩, st'⟩
    · exact hStart
    · exact ⟨rfl, hStart⟩
  · rw [startElement, startStored, Action.perform_bind,
      Action.perform_ofExcept]
    cases startEntry e current? with
    | error fault => exact ⟨st.scope, rfl⟩
    | ok next? => exact ⟨rfl, by simp, ⟨st.scope, rfl⟩⟩

/- Every step of frames that fill changes the scope alone. -/
theorem filling_invariant
    (env : Environment α)
    (lookup : BrushLookup α)
    (base : RenderState α) :
    Stack.Invariant env (startElement env lookup)
      (OnlyFilling base) where
  start := by
    intro top below depth e st hFilling
    have hStart :=
      startElement_fills env lookup hFilling.top_fills e st
    generalize (startElement env lookup top.frame e).perform st =
      outcome at hStart ⊢
    rcases outcome with ⟨fault | ⟨frame, child?⟩, st'⟩
    · exact hFilling.retop hFilling.top_fills hStart
    · exact
        (hFilling.retop hStart.1 hStart.2.2).push hStart.2.1 depth
  child := by
    intro top below name st hFilling
    have hEnd :=
      Frame.endChild_fills env hFilling.top_fills name .none st
    exact hFilling.retop hEnd.1 hEnd.2
  root := by
    intro top st st' product hFilling hFinish
    rw [Frame.finish_fills hFilling.top_fills] at hFinish
    cases hFinish
    exact hFilling.tail
  hand := by
    intro top parent below name st st' product hFilling hFinish
    rw [Frame.finish_fills hFilling.top_fills] at hFinish
    cases hFinish
    have hEnd :=
      Frame.endChild_fills env hFilling.tail.top_fills name .none st
    exact hFilling.tail.retop hEnd.1 hEnd.2
  spoil := by
    intro top below st st' fault hFilling hFinish
    rw [Frame.finish_fills hFilling.top_fills] at hFinish
    cases hFinish
  abort := by
    intro top below st hFilling
    rw [Frame.abort_fills hFilling.top_fills]
    exact hFilling.tail

------------------------------------------------------------
-- Resources of a page
------------------------------------------------------------

/-
  The resources of a page open dictionaries and fill them, and
  nothing else changes, by induction on the elements.
-/
theorem Markup.Elements.take_resources
    {lookup : BrushLookup α}
    (elements : Elements)
    (hAmong : elements.Among ["FixedPage.Resources"])
    {n : Nat}
    {frame' : Frame α}
    {st st' : RenderState α}
    (hOk :
      (elements.take env (startElement env lookup)
        (.content ⟨.none, n⟩)).perform st = (.ok frame', st')) :
    (∃ m, frame' = .content ⟨.none, m⟩) ∧ st.SameButScope st' := by
  induction elements generalizing n st with
  | none =>
      cases hOk
      exact ⟨⟨n, rfl⟩, ⟨st'.scope, rfl⟩⟩
  | element name attributes inner rest _ ih =>
      have hName : name = "FixedPage.Resources" :=
        List.mem_singleton.mp hAmong.1
      have hStart :
          (startElement env lookup (.content ⟨.none, n⟩)
              ⟨.nowhere, name, attributes⟩).perform st =
            (.ok
              (.content ⟨.none, n + 1⟩, some (.resources false)),
              { st with scope := st.scope.push }) := by
        rw [hName]
        rfl
      rcases take_opened hStart hOk with
        ⟨last, full, product, done, hInner, hFinish, hRest⟩
      have hFilling :
          OnlyFilling st [⟨.resources false, 0⟩]
            { st with scope := st.scope.push } :=
        ⟨by simp [FrameKind.fills], ⟨st.scope.push, rfl⟩⟩
      have hTaken :=
        (filling_invariant env lookup st).take inner
          (.resources false) hFilling
      rw [hInner] at hTaken
      rw [Frame.finish_fills (hTaken.fills _ (.head _))] at hFinish
      cases hFinish
      have hReceive :
          (Frame.receive env name .none
              (.content ⟨.none, n + 1⟩)).perform full =
            (.ok (.content ⟨.none, n + 1⟩), full) := by
        rw [hName]
        rfl
      rw [Action.perform_bind_ok hReceive] at hRest
      rcases ih hAmong.2 hRest with ⟨hFrame, hState⟩
      exact ⟨hFrame, IsTrans.trans _ _ _ hTaken.state hState⟩

end

end FixedPage

namespace FixedPage

open Markup

variable {α : Type}

------------------------------------------------------------
-- Elements of a page
------------------------------------------------------------

/- A page with some elements in it. -/
def Markup.Elements.page
    (attributes : List Attribute)
    (inner : Elements) : Elements :=
  .element "FixedPage" attributes inner .none

/- A frame of the kind of a page is one. -/
theorem Frame.eq_page_of_kind
    {frame : Frame α}
    (hKind : frame.kind = .page) :
    ∃ n, frame = .content ⟨none, n⟩ := by
  cases frame with
  | content f =>
      rcases f with ⟨visual?, n⟩
      cases visual? with
      | none => exact ⟨n, rfl⟩
      | some v => cases hKind
  | _ => cases hKind

section

variable [Scalar α] {env : Environment α}

/-
  What a page makes of elements leaves it a page, with as many
  visual brushes under way as before, and leaves the surface on
  its level.
-/
theorem Markup.Elements.take_page
    (elements : Elements)
    {n : Nat}
    {frame' : Frame α}
    {st st' : RenderState α}
    (hOk :
      (elements.take env (startElement env (pageBrush env))
        (.content ⟨.none, n⟩)).perform st = (.ok frame', st')) :
    (∃ m, frame' = .content ⟨.none, m⟩) ∧
      st'.visualDepth = st.visualDepth ∧
        Surface.Level false st.surface st'.surface := by
  have hLookup : ∀ key, (pageBrush env key).Keeps (OnLevel true) :=
    fun key => (storedBrush_onLevel env _ key).weaken
  have hCounted :=
    (countedElement_invariant env (pageBrush_sameDepth env) .page
      st.visualDepth).take elements (.content ⟨.none, n⟩)
        (.start _ (.content ⟨.none, n⟩) 0 rfl
          (show FrameKind.page ≠ .visual by decide) st)
  have hBalanced :=
    (balanced_invariant env hLookup .page (by decide) (by decide)
      st.surface).take elements (.content ⟨.none, n⟩)
        (.start (.content ⟨.none, n⟩) 0 rfl rfl rfl st)
  rw [hOk] at hCounted hBalanced
  have hKind : frame'.kind = .page := by
    cases hCounted.grown with
    | root hBottom => exact hBottom
  rcases Frame.eq_page_of_kind hKind with ⟨m, rfl⟩
  exact
    ⟨⟨m, rfl⟩, hCounted.depth, hBalanced.inside.level_of_nil⟩

------------------------------------------------------------
-- Pages
------------------------------------------------------------

section

variable {attributes : List Attribute} {inner : Elements}
variable {items : List (Location × Event)}
variable {st st' : RenderState α}

/- The element of a page takes what is in it and ends. -/
theorem Markup.Elements.perform_take_page
    (attributes : List Attribute)
    (inner : Elements)
    (st : RenderState α) :
    ((page attributes inner).take env
        (startElement env (pageBrush env))
        (.content ⟨.none, 0⟩)).perform st =
      (inner.take env (startElement env (pageBrush env))
          (.content ⟨.none, 0⟩) >>=
        Frame.receive env "FixedPage" .none).perform st := by
  have hStart :
      (startElement env (pageBrush env) (.content ⟨.none, 0⟩)
          ⟨.nowhere, "FixedPage", attributes⟩).perform st =
        (.ok (.content ⟨.none, 0⟩, .none), st) :=
    rfl
  rw [page, take, Action.perform_bind, Action.perform_onError, hStart]
  simp only [take, bind_pure]

/- A page whose elements are taken is rendered. -/
theorem renderItems_ok
    {n : Nat}
    (hTags : tagsOf items = (Elements.page attributes inner).tags)
    (hTaken :
      (inner.take env (startElement env (pageBrush env))
        (.content ⟨none, 0⟩)).perform st =
          (.ok (.content ⟨none, n⟩), st')) :
    renderItems env (items.map .ok) st =
      (.ok (), st'.popDictionaries n) := by
  have hTakes :=
    Stack.feedAll_take (pageElement_alike env .zero true) hTags
      (.content ⟨none, 0⟩) (Nat.le_refl 0) [] st
  have hEnd :
      (Frame.receive env "FixedPage" .none
          (.content ⟨none, n⟩)).perform st' =
        (.ok (.content ⟨none, 0⟩), st'.popDictionaries n) :=
    rfl
  rw [Elements.perform_take_page, Action.perform_bind_ok hTaken, hEnd]
    at hTakes
  have hFed := hTakes.eq_ok
  have hRun : runPart env _ _ st (items.map .ok ++ []) = _ :=
    Stack.runPart_feedAll (congrArg Fed.result hFed)
  rw [List.append_nil, hFed] at hRun
  exact hRun

/- A page one of whose elements fails is not rendered. -/
theorem renderItems_error
    {fault : Error}
    (hTags : tagsOf items = (Elements.page attributes inner).tags)
    (hTaken :
      (inner.take env (startElement env (pageBrush env))
        (.content ⟨none, 0⟩)).perform st = (.error fault, st')) :
    ∃ fault',
      fault'.unplaced = fault.unplaced ∧
        renderItems env (items.map .ok) st = (.error fault', st') := by
  have hTakes :=
    Stack.feedAll_take (pageElement_alike env .zero true) hTags
      (.content ⟨none, 0⟩) (Nat.le_refl 0) [] st
  rw [Elements.perform_take_page, Action.perform_bind_error _ hTaken]
    at hTakes
  rcases hTakes.eq_error with
    ⟨fault', above, deep, st₁, hFed, hFault, hUnwound⟩
  have hRun := runPart_feedAll_error hFed []
  rw [List.append_nil, List.append_nil, hUnwound] at hRun
  exact ⟨fault', hFault, hRun⟩

/-
  Two pages are rendered alike if what a page makes of their
  elements is: the one as far ahead of the other on the surface.
-/
theorem renderItems_alike
    {d : Shift α}
    {same : Bool}
    {attributes' : List Attribute}
    {inner' : Elements}
    {items' : List (Location × Event)}
    (hTags : tagsOf items = (Elements.page attributes inner).tags)
    (hTags' :
      tagsOf items' = (Elements.page attributes' inner').tags)
    {outcome outcome' :
      Except Error (Frame α) × RenderState α}
    (hTaken :
      (inner.take env (startElement env (pageBrush env))
        (.content ⟨none, 0⟩)).perform st = outcome)
    (hTaken' :
      (inner'.take env (startElement env (pageBrush env))
        (.content ⟨none, 0⟩)).perform st' = outcome')
    (hResult :
      Except.Alike (Frame.raise d.groups) outcome.1 outcome'.1)
    (hState : outcome.2.Follows env d same outcome'.2) :
    Except.Alike id (renderItems env (items.map .ok) st).1
        (renderItems env (items'.map .ok) st').1 ∧
      (renderItems env (items'.map .ok) st').2.surface =
        (renderItems env (items.map .ok) st).2.surface.raise d := by
  rcases outcome with ⟨result, done⟩
  rcases outcome' with ⟨result', done'⟩
  cases hResult with
  | ok frame =>
      rcases inner.take_page hTaken with ⟨⟨n, rfl⟩, _⟩
      rw [renderItems_ok hTags hTaken, renderItems_ok hTags' hTaken']
      exact ⟨.ok (), hState.surface⟩
  | error hFault =>
      rcases renderItems_error hTags hTaken with
        ⟨first, hFirst, hRender⟩
      rcases renderItems_error hTags' hTaken' with
        ⟨second, hSecond, hRender'⟩
      rw [hRender, hRender']
      refine ⟨.error ?_, hState.surface⟩
      rw [hFirst, hSecond, hFault]

end

------------------------------------------------------------
-- Siblings
------------------------------------------------------------

/-
  A state before a page is drawn. What it holds in memory is what
  loading would give.
-/
structure RenderState.Fresh
    (env : Environment α)
    (st : RenderState α) : Prop where
  surface : st.surface = .blank
  scope : st.scope = .empty
  visualDepth : st.visualDepth = 0
  fonts : st.fonts.Faithful env.loadFont
  images : st.images.Faithful env.loadImage
  profiles : st.profiles.Faithful env.profileSource.load

namespace RenderState.Fresh

variable {st st' : RenderState α}

/- A page that is drawn first starts in a fresh state. -/
theorem start
    (env : Environment α) :
    Fresh env (.start .empty .empty .empty) where
  surface := rfl
  scope := rfl
  visualDepth := rfl
  fonts := .empty _
  images := .empty _
  profiles := .empty _

/- No fresh state is ahead of another one. -/
theorem follows
    (hFresh : st.Fresh env)
    (hFresh' : st'.Fresh env) :
    st.Follows env .zero false st' where
  surface := by
    rw [Surface.raise_zero, hFresh.surface, hFresh'.surface]
  scope := by rw [hFresh.scope, hFresh'.scope]
  visualDepth := by rw [hFresh.visualDepth, hFresh'.visualDepth]
  fonts := ⟨hFresh.fonts, hFresh'.fonts⟩
  images := ⟨hFresh.images, hFresh'.images⟩
  profiles := ⟨hFresh.profiles, hFresh'.profiles⟩

end RenderState.Fresh

/-
  What has happened when a page with resources and elements that
  draw has been rendered: the resources were taken, and then the
  elements, which have left only drawings and memories behind.
-/
structure Page.Drawn
    (env : Environment α)
    (resources first : Elements)
    (n : Nat)
    (st opened drawn : RenderState α) : Prop where
  resources :
    (resources.take env (startElement env (pageBrush env))
      (.content ⟨none, 0⟩)).perform st =
        (.ok (.content ⟨none, n⟩), opened)
  first :
    (first.take env (startElement env (pageBrush env))
      (.content ⟨none, n⟩)).perform opened =
        (.ok (.content ⟨none, n⟩), drawn)
  butScope : st.SameButScope opened
  scope : drawn.scope = opened.scope
  visualDepth : drawn.visualDepth = opened.visualDepth
  level : Surface.Level false opened.surface drawn.surface

/- What is rendered of elements that are taken has happened. -/
theorem Page.Drawn.of_take
    {resources first : Elements}
    (hResources : resources.Among ["FixedPage.Resources"])
    (hFirst : first.Among contentNames)
    {frame : Frame α}
    {st drawn : RenderState α}
    (hOk :
      ((resources ++ first).take env
        (startElement env (pageBrush env))
        (.content ⟨none, 0⟩)).perform st = (.ok frame, drawn)) :
    ∃ n opened,
      frame = .content ⟨none, n⟩ ∧
        Page.Drawn env resources first n st opened drawn := by
  rw [Elements.take_append, Action.perform_bind] at hOk
  generalize hTaken :
    (resources.take env (startElement env (pageBrush env))
      (.content ⟨none, 0⟩)).perform st = outcome at hOk
  rcases outcome with ⟨fault | root, opened⟩
  · cases hOk
  · rcases resources.take_resources hResources hTaken with
      ⟨⟨n, rfl⟩, hOpened⟩
    have hKind :
        (Frame.content ⟨none, n⟩ : Frame α).kind ∈ contentKinds :=
      .head _
    rcases
      first.take_content_sameScope (pageBrush_sameScope env) hFirst
        hKind hOk with
      ⟨rfl, hScope⟩
    rcases first.take_page hOk with ⟨_, hDepth, hLevel⟩
    exact
      ⟨n, opened, rfl, hTaken, hOk, hOpened, hScope, hDepth, hLevel⟩

/- A surface on the level of the blank one is ahead of it. -/
theorem Surface.Level.eq_raise_blank
    {s : Surface α}
    (hLevel : Level false .blank s) :
    s =
      raise
        ⟨s.operations, s.operations.countP Operation.opensGroup⟩
        .blank := by
  rcases hLevel with ⟨⟨w, hOps, hNested⟩, hSaved, hGroups, hCtm, -⟩
  have hWord : s.operations.toList = w := hOps
  have hNext : s.nextGroup = 0 + w.countP Operation.opensGroup :=
    hNested.next_eq
  rw [← hWord, Array.countP_toList] at hNext
  rcases s with ⟨operations, ctm, saved, groups, next⟩
  have hTurned : ctm = .identity := hCtm rfl
  have hNone : saved = [] := hSaved
  have hClosed : groups = [] := hGroups
  subst hTurned hNone hClosed
  rw [raise, Surface.mk.injEq]
  exact ⟨by simp [blank], rfl, rfl, rfl, hNext⟩

/-
  A state in which the elements have been drawn is ahead of one
  in which only the resources were taken.
-/
theorem Page.Drawn.ahead
    {resources first : Elements}
    {n : Nat}
    {st opened drawn opened' drawn' : RenderState α}
    (hDrawn : Page.Drawn env resources first n st opened drawn)
    (hBlank : st.surface = .blank)
    (hOpened : opened.Follows env .zero false opened')
    (hAfter : drawn.Follows env .zero false drawn') :
    opened'.Follows env
      ⟨drawn.surface.operations,
        drawn.surface.operations.countP Operation.opensGroup⟩
      false drawn' where
  surface := by
    have hOpen : opened.surface = .blank := by
      rcases hDrawn.butScope with ⟨scope, rfl⟩
      exact hBlank
    have hLevel := hDrawn.level
    rw [hOpen] at hLevel
    rw [hAfter.surface, hOpened.surface, Surface.raise_zero,
      Surface.raise_zero, hOpen]
    exact hLevel.eq_raise_blank
  scope := by
    rw [hAfter.scope, hDrawn.scope, hOpened.scope]
  visualDepth := by
    rw [hAfter.visualDepth, hDrawn.visualDepth, hOpened.visualDepth]
  fonts := ⟨hOpened.fonts.2, hAfter.fonts.2⟩
  images := ⟨hOpened.images.2, hAfter.images.2⟩
  profiles := ⟨hOpened.profiles.2, hAfter.profiles.2⟩

/-
  A page draws some elements after others as it draws them alone:
  what is recorded comes after what the others have recorded, and
  the numbers of the groups are raised by the number of groups
  that the others have opened. The results are the same up to the
  places of errors.
-/
theorem renderItems_siblings
    (env : Environment α)
    (attributes : List Attribute)
    {resources first second : Elements}
    (hResources : resources.Among ["FixedPage.Resources"])
    (hFirst : first.Among ["Canvas", "Path", "Glyphs"])
    {items items' items'' : List (Location × Event)}
    (hTags :
      tagsOf items =
        (Elements.page attributes (resources ++ first)).tags)
    (hTags' :
      tagsOf items' =
        (Elements.page attributes (resources ++ second)).tags)
    (hTags'' :
      tagsOf items'' =
        (Elements.page attributes
          (resources ++ (first ++ second))).tags)
    {st st' st'' : RenderState α}
    (hFresh : st.Fresh env)
    (hFresh' : st'.Fresh env)
    (hFresh'' : st''.Fresh env)
    (hOk : (renderItems env (items.map .ok) st).1 = .ok ()) :
    let drawn := (renderItems env (items.map .ok) st).2.surface
    let alone := renderItems env (items'.map .ok) st'
    let after := renderItems env (items''.map .ok) st''
    after.2.surface.operations =
        drawn.operations
          ++ alone.2.surface.operations.map
            (Operation.raise
              (drawn.operations.countP Operation.opensGroup)) ∧
      Except.Alike id alone.1 after.1 := by
  intro drawn alone after
  generalize hFirstTaken :
    ((resources ++ first).take env
      (startElement env (pageBrush env))
      (.content ⟨none, 0⟩)).perform st = outcome
  rcases outcome with ⟨fault | frame, a⟩
  · rcases renderItems_error hTags hFirstTaken with
      ⟨fault', _, hRender⟩
    rw [hRender] at hOk
    cases hOk
  rcases Page.Drawn.of_take hResources hFirst hFirstTaken with
    ⟨n, s, rfl, hDrawn⟩
  have hSurface : drawn = a.surface := by
    change (renderItems env (items.map .ok) st).2.surface = _
    rw [renderItems_ok hTags hFirstTaken]
    rfl
  have hMirrors :
      ∀ (elements : Elements) (d : Shift α) (n : Nat),
        Action.Mirrors env d false (Frame.raise d.groups)
          (elements.take env (startElement env (pageBrush env))
            (.content ⟨none, n⟩))
          (elements.take env (startElement env (pageBrush env))
            (.content ⟨none, n⟩)) :=
    fun elements d n =>
      elements.take_mirrors (pageElement_alike env)
        (.content ⟨none, n⟩)
  -- the resources are taken alike in all three renderings
  rcases
    (hMirrors resources .zero 0).perform_ok (hFresh.follows hFresh')
      hDrawn.resources with
    ⟨s', hOpened', hFollows'⟩
  rcases
    (hMirrors resources .zero 0).perform_ok
      (hFresh.follows hFresh'') hDrawn.resources with
    ⟨s'', hOpened'', hFollows''⟩
  rcases
    (hMirrors first .zero n).perform_ok hFollows'' hDrawn.first with
    ⟨a'', hDrawn'', hAfter⟩
  have hAhead := hDrawn.ahead hFresh.surface hFollows' hAfter
  have hTaken' :
      ((resources ++ second).take env
          (startElement env (pageBrush env))
          (.content ⟨none, 0⟩)).perform st' =
        (second.take env (startElement env (pageBrush env))
          (.content ⟨none, n⟩)).perform s' := by
    rw [Elements.take_append, Action.perform_bind_ok hOpened']
    rfl
  have hTaken'' :
      ((resources ++ (first ++ second)).take env
          (startElement env (pageBrush env))
          (.content ⟨none, 0⟩)).perform st'' =
        (second.take env (startElement env (pageBrush env))
          (.content ⟨none, n⟩)).perform a'' := by
    rw [Elements.take_append, Action.perform_bind_ok hOpened'']
    change ((first ++ second).take env _ (.content ⟨none, n⟩)).perform
      s'' = _
    rw [Elements.take_append, Action.perform_bind_ok hDrawn'']
    rfl
  rcases hMirrors second _ n s' a'' hAhead with ⟨hResult, hState⟩
  rcases
    renderItems_alike hTags' hTags'' hTaken' hTaken'' hResult hState
    with ⟨hAlike, hRaised⟩
  refine ⟨?_, hAlike⟩
  rw [hSurface]
  exact congrArg Surface.operations hRaised

end

namespace Overlay

/- Resources with one color. -/
def resources : Elements :=
  .element "FixedPage.Resources" []
    (.element "ResourceDictionary" []
      (.element "SolidColorBrush"
        [⟨keyAttribute, "Ink"⟩, ⟨"Color", "#000000"⟩] .none .none)
      .none)
    .none

/- A canvas that is drawn into a group. -/
def layer : Elements :=
  .element "Canvas" [⟨"Opacity", "0.5"⟩] .none .none

/- A page with some elements after the resources. -/
def items
    (inner : Elements) : List (Location × Event) :=
  (Elements.page [] (resources ++ inner)).tags.map
    (Prod.mk ⟨"page", 1, 1⟩)

/- How the page is rendered. -/
def rendered
    (inner : Elements) : Except Error Unit × RenderState ℚ :=
  renderItems .empty ((items inner).map .ok)
    (.start .empty .empty .empty)

end Overlay

/- A canvas after a canvas: its group is the second one. -/
theorem Overlay.layers_drawn :
    (Overlay.rendered Overlay.layer).1 = .ok () ∧
      (Overlay.rendered
          (Overlay.layer ++ Overlay.layer)).2.surface.operations =
        (Overlay.rendered Overlay.layer).2.surface.operations
          ++ (Overlay.rendered Overlay.layer).2.surface.operations.map
            (Operation.raise 1) := by
  have hOk : (Overlay.rendered Overlay.layer).1 = .ok () := by
    decide +kernel
  have hGroups :
      (Overlay.rendered
          Overlay.layer).2.surface.operations.countP
            Operation.opensGroup = 1 := by
    decide +kernel
  have hTags :
      ∀ inner,
        tagsOf (Overlay.items inner) =
          (Elements.page [] (Overlay.resources ++ inner)).tags := by
    intro inner
    apply tagsOf_eq_tags
    rw [Overlay.items, List.map_map]
    exact List.map_id _
  have hFresh :
      (RenderState.start .empty .empty .empty).Fresh
        (Environment.empty (α := ℚ)) :=
    .start .empty
  have hSiblings :=
    renderItems_siblings .empty []
      (show Overlay.resources.Among ["FixedPage.Resources"] from
        ⟨.head _, trivial⟩)
      (show Overlay.layer.Among ["Canvas", "Path", "Glyphs"] from
        ⟨.head _, trivial⟩)
      (hTags Overlay.layer) (hTags Overlay.layer)
      (hTags (Overlay.layer ++ Overlay.layer))
      hFresh hFresh hFresh hOk
  refine ⟨hOk, hSiblings.1.trans ?_⟩
  exact
    congrArg
      (fun k =>
        (Overlay.rendered Overlay.layer).2.surface.operations
          ++ (Overlay.rendered Overlay.layer).2.surface.operations.map
            (Operation.raise k))
      hGroups

end FixedPage
