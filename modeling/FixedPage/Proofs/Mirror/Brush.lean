import FixedPage.Proofs.Render.Scope
import FixedPage.Proofs.Resource.RoundTrip
import FixedPage.Proofs.Scalar.Exact

/-
  This file shows that a stored brush is the brush that its
  markup gives where it is written inside a property element. The
  key of the brush is passed over there, and nothing of what the
  brush is made of depends on the frames around it.

  Main declarations:
    * `startElement_unkeyed`
    * `writtenBrush`
    * `Fed.Inlined`
    * `Stack.feedAll_stored`
    * `pageBrush_inlined`
-/

namespace FixedPage

open Markup

variable {α : Type}

------------------------------------------------------------
-- Keys
------------------------------------------------------------

namespace Element

variable {e : Element} {name : String}

/- The same element without the key of an entry. -/
def unkeyed
    (e : Element) : Element :=
  { e with attributes := e.attributes.filter (·.name != keyAttribute) }

/- Other attributes are found without the key as well. -/
theorem value?_unkeyed
    (hName : name ≠ keyAttribute) :
    e.unkeyed.value? name = e.value? name := by
  have hSame :
      (fun a : Attribute =>
        a.name != keyAttribute && (a.name == name)) =
        fun a => a.name == name := by
    funext a
    rw [Bool.eq_iff_iff, Bool.and_eq_true, bne_iff_ne, beq_iff_eq]
    constructor
    · exact And.right
    · rintro rfl
      exact ⟨hName, rfl⟩
  unfold value? valueOf? unkeyed
  rw [List.find?_filter]
  simp only [Bool.decide_and, Bool.decide_eq_true, hSame]

theorem required_unkeyed
    (hName : name ≠ keyAttribute) :
    e.unkeyed.required name = e.required name := by
  unfold required
  rw [value?_unkeyed hName]
  rfl

theorem readRequired_unkeyed
    {β : Type}
    (hName : name ≠ keyAttribute)
    (grammar : String → Option β) :
    e.unkeyed.readRequired name grammar =
      e.readRequired name grammar := by
  unfold readRequired
  rw [required_unkeyed hName]
  rfl

/- A fold that passes the key over does not miss it. -/
theorem foldlM_unkeyed
    {β : Type}
    {take : β → Attribute → Action α β}
    (hPassed :
      ∀ b a, a.name = keyAttribute → take b a = pure b)
    (b : β) :
    e.unkeyed.attributes.foldlM take b =
      e.attributes.foldlM take b := by
  unfold unkeyed
  rw [List.foldlM_filter]
  congr 1
  funext b a
  by_cases hKey : a.name = keyAttribute
  · rw [hPassed b a hKey, hKey]
    rfl
  · rw [if_pos (bne_iff_ne.mpr hKey)]

end Element

section

variable [Scalar α] {env : Environment α}

/- A brush of one color is read without its key. -/
theorem SolidBrush.read_unkeyed
    (e : Element) :
    SolidBrush.read env e.unkeyed = SolidBrush.read env e := by
  have hPassed :
      ∀ (b : SolidBrush α) (a : Attribute),
        a.name = keyAttribute → takeAttribute env e b a = pure b := by
    intro b a hKey
    unfold takeAttribute
    simp [hKey, keyAttribute]
  have hFold := Element.foldlM_unkeyed (e := e) hPassed ⟨none, 1⟩
  unfold SolidBrush.read
  rw [e.required_unkeyed (by decide)]
  exact congrArg (· >>= _) hFold

/- The common attributes of a brush are read without its key. -/
theorem BrushStyle.read_unkeyed
    {grammar : BrushGrammar}
    (hPassed : grammar.passed.contains keyAttribute = true)
    (extend : Extend)
    (e : Element) :
    BrushStyle.read env grammar extend e.unkeyed =
      BrushStyle.read env grammar extend e := by
  have hTake :
      ∀ (s : BrushStyle α) (a : Attribute),
        a.name = keyAttribute →
          takeAttribute env grammar e s a = pure s := by
    intro s a hKey
    unfold takeAttribute
    rw [hKey, if_pos hPassed]
  exact e.foldlM_unkeyed hTake _

/- A gradient is read without its key. -/
theorem GradientBrush.read_unkeyed
    (course : List String)
    {shapeOf : Element → Except Error (GradientShape α)}
    {e : Element}
    (hShape : shapeOf e.unkeyed = shapeOf e) :
    GradientBrush.read env course shapeOf e.unkeyed =
      GradientBrush.read env course shapeOf e := by
  have hPassed :
      (BrushGrammar.gradient course).passed.contains keyAttribute =
        true := by
    simp [BrushGrammar.gradient]
  unfold GradientBrush.read
  rw [BrushStyle.read_unkeyed hPassed, hShape]

/- The course along a line is read without the key. -/
theorem GradientShape.readLinear_unkeyed
    (e : Element) :
    readLinear (α := α) e.unkeyed = readLinear e := by
  unfold readLinear
  rw [e.required_unkeyed (by decide), e.required_unkeyed (by decide)]
  rfl

/- The course between ellipses is read without the key. -/
theorem GradientShape.readRadial_unkeyed
    (e : Element) :
    readRadial (α := α) e.unkeyed = readRadial e := by
  unfold readRadial
  rw [e.readRequired_unkeyed (by decide),
    e.readRequired_unkeyed (by decide),
    e.readRequired_unkeyed (by decide),
    e.readRequired_unkeyed (by decide)]

/- An image brush is read without its key. -/
theorem ImageBrush.read_unkeyed
    (e : Element) :
    ImageBrush.read env e.unkeyed = ImageBrush.read env e := by
  unfold ImageBrush.read
  rw [BrushStyle.read_unkeyed (by decide),
    e.required_unkeyed (by decide), e.required_unkeyed (by decide),
    e.required_unkeyed (by decide)]
  rfl

/- A visual brush begins without its key as it does with it. -/
theorem VisualBrush.begin_unkeyed
    (e : Element) :
    VisualBrush.begin env e.unkeyed = VisualBrush.begin env e := by
  unfold VisualBrush.begin VisualBrush.read
  rw [BrushStyle.read_unkeyed (by decide),
    e.required_unkeyed (by decide), e.required_unkeyed (by decide)]
  rfl

/- A brush starts without its key as it does with it. -/
theorem startBrush_unkeyed
    (pattern? : Option (Pattern α))
    (e : Element) :
    startBrush env pattern? e.unkeyed = startBrush env pattern? e := by
  unfold startBrush GradientBrush.readLinear GradientBrush.readRadial
  rw [SolidBrush.read_unkeyed, ImageBrush.read_unkeyed,
    VisualBrush.begin_unkeyed,
    GradientBrush.read_unkeyed _ (GradientShape.readLinear_unkeyed e),
    GradientBrush.read_unkeyed _ (GradientShape.readRadial_unkeyed e)]
  rfl

/- So do all elements inside a frame for brushes. -/
theorem startElement_unkeyed
    (env : Environment α)
    (lookup : BrushLookup α)
    (pattern? : Option (Pattern α))
    (e : Element) :
    startElement env lookup (.brush pattern?) e.unkeyed =
      startElement env lookup (.brush pattern?) e := by
  unfold startElement
  dsimp only
  rw [startBrush_unkeyed]

end

------------------------------------------------------------
-- Stored elements
------------------------------------------------------------

namespace Markup

/- Items without errors are events at some places. -/
theorem items_of_events
    {items : List Item}
    {events : List Event}
    (hItems : items.map Item.event = events.map .ok) :
    ∃ placed : List (Location × Event),
      items = placed.map .ok ∧ placed.map Prod.snd = events := by
  induction items generalizing events with
  | nil =>
      refine ⟨[], rfl, ?_⟩
      exact (List.map_eq_nil_iff.mp hItems.symm).symm
  | cons item items ih =>
      cases events with
      | nil => cases hItems
      | cons event events =>
          rw [List.map_cons, List.map_cons, List.cons.injEq] at hItems
          rcases ih hItems.2 with ⟨placed, rfl, hEvents⟩
          rcases item with fault | ⟨place, found⟩
          · cases hItems.1
          · refine ⟨(place, found) :: placed, rfl, ?_⟩
            rw [List.map_cons, hEvents]
            exact congrArg (· :: events) (Except.ok.inj hItems.1)

end Markup

/-
  A stored element without other keys, whose values are plain, is
  read as its tags without the key, inside another element.
-/
theorem ResourceEntry.readText_unkeyed
    {name : String}
    {attributes : List Attribute}
    {inner : Elements}
    (hName : IsName name)
    (hDistinct : Distinct attributes)
    (hNested : WellNested inner.tags)
    (hUnkeyed : ∀ e ∈ inner.tags, e.Unkeyed)
    (hPlain :
      ∀ e ∈ Event.startTag name attributes :: inner.tags, e.Plain)
    (key source : String) :
    ∃ entry first last body,
      (ResourceEntry.begin key name attributes).takeAll? inner.tags =
          some entry ∧
        readText source entry.markup =
            .ok (first, .startTag name [])
              :: (body.map .ok ++ [.ok (last, .endTag name)]) ∧
          tagsOf body =
            (Elements.element name
              (attributes.filter (·.name != keyAttribute)) inner
              .none).tags := by
  rcases readText_markup hName hDistinct hNested key source with
    ⟨entry, hTake, _, hRead⟩
  have hEvents :=
    (markupEvents_stored_iff name attributes inner.tags).mpr
      ⟨hUnkeyed, hPlain⟩
  have hItems :
      (readText source entry.markup).map Item.event =
        (recordedEvents name attributes inner.tags).map .ok := by
    rw [hRead, ← hEvents, List.map_map]
    rfl
  rcases items_of_events hItems with ⟨placed, hPlaced, hSnd⟩
  have hTags :
      placed.map Prod.snd =
        .startTag name []
          :: ((Elements.element name
                (attributes.filter (·.name != keyAttribute)) inner
                .none).tags
            ++ [.endTag name]) := by
    rw [hSnd]
    simp [recordedEvents, Elements.tags]
  rcases List.map_eq_cons_iff.mp hTags with
    ⟨⟨first, _⟩, rest, rfl, rfl, hRest⟩
  rcases List.map_eq_append_iff.mp hRest with
    ⟨body, back, rfl, hBody, hBack⟩
  rcases List.map_eq_cons_iff.mp hBack with
    ⟨⟨last, _⟩, none, rfl, rfl, hNone⟩
  rw [List.map_eq_nil_iff.mp hNone] at hPlaced
  refine ⟨entry, first, last, body, hTake, ?_, tagsOf_eq_tags hBody⟩
  rw [hPlaced]
  simp

section

variable [Scalar α] {env : Environment α}

/- A fragment goes on after events that are taken. -/
theorem runOpenFragment_feedAll
    {handler : StartHandler α}
    {items : List (Location × Event)}
    {stack next : Stack α}
    {st st' : RenderState α}
    (hOk : stack.feedAll env handler st items = ⟨.ok none, next, st'⟩)
    (rest : List Item) :
    runOpenFragment env handler stack st (items.map .ok ++ rest) =
      runOpenFragment env handler next st' rest := by
  induction items generalizing stack st with
  | nil =>
      cases hOk
      rfl
  | cons item items ih =>
      rcases item with ⟨place, event⟩
      have hResult :
          (stack.feedAll env handler st
            ((place, event) :: items)).result = .ok none := by
        rw [hOk]
      rcases Stack.feedAll_cons hResult with ⟨mid, st₁, hFeed, hAll⟩
      rw [hAll] at hOk
      rw [List.map_cons, List.cons_append, runOpenFragment, hFeed]
      exact ih hOk

/- A fragment ends when an event fails. -/
theorem runOpenFragment_feedAll_error
    {handler : StartHandler α}
    {items : List (Location × Event)}
    {stack next : Stack α}
    {st st' : RenderState α}
    {fault : Error}
    (hError :
      stack.feedAll env handler st items = ⟨.error fault, next, st'⟩)
    (rest : List Item) :
    runOpenFragment env handler stack st (items.map .ok ++ rest) =
      (.error fault, next.unwind st') := by
  induction items generalizing stack st with
  | nil => cases hError
  | cons item items ih =>
      rcases item with ⟨place, event⟩
      rw [Stack.feedAll] at hError
      rw [List.map_cons, List.cons_append, runOpenFragment]
      generalize stack.feed env handler place st event = fed
        at hError ⊢
      rcases fed with ⟨result, mid, st₁⟩
      rcases result with fault' | _ | product
      · cases hError
        rfl
      · exact ih hError
      · cases hError

------------------------------------------------------------
-- Written brushes
------------------------------------------------------------

/- The brush that elements inside a property element give. -/
def writtenBrush
    (env : Environment α)
    (elements : Elements) : Action α (Option (Pattern α)) := do
  let handler := startElement env (pageBrush env)
  match ← elements.take env handler (.brush none) with
  | .brush pattern? => pure pattern?
  | _ => pure none

/- A frame for brushes that takes elements stays one. -/
theorem take_brush
    (elements : Elements)
    {frame : Frame α}
    {pattern? : Option (Pattern α)}
    {st st' : RenderState α}
    (hOk :
      (elements.take env (startElement env (pageBrush env))
        (.brush pattern?)).perform st = (.ok frame, st')) :
    ∃ next?, frame = .brush next? := by
  have hTaken :=
    (scoped_invariant env (pageBrush_sameScope env) .brush
      st.scope).take elements (.brush pattern?)
        (.start (.brush pattern?) 0 rfl rfl rfl st)
  rw [hOk] at hTaken
  have hKind : frame.kind = .brush := by
    cases hTaken.grown with
    | root hBottom => exact hBottom
  exact Frame.eq_brush_of_kind hKind

/- The key of a brush does not matter where it is written. -/
theorem writtenBrush_unkeyed
    (name : String)
    (attributes : List Attribute)
    (inner : Elements) :
    writtenBrush env
        (.element name (attributes.filter (·.name != keyAttribute))
          inner .none) =
      writtenBrush env (.element name attributes inner .none) := by
  have hStart :=
    startElement_unkeyed env (pageBrush env) none
      ⟨.nowhere, name, attributes⟩
  unfold Element.unkeyed at hStart
  unfold writtenBrush
  dsimp only
  rw [Elements.take, hStart, ← Elements.take]

/-
  A written brush has been taken from inside a property element
  which has ended. The parent of the brush sees what it came out
  as; or it came out as an error, and the frames above the parent
  are still to be given up.
-/
inductive Fed.Inlined
    (env : Environment α)
    (parent : Entry α)
    (below : List (Entry α))
    (depth : Nat)
    (property : String) :
    Except Error (Option (Pattern α)) × RenderState α → Fed α → Prop
| ok
    (pattern? : Option (Pattern α))
    (st : RenderState α) :
    Inlined env parent below depth property (.ok pattern?, st)
      ⟨.ok none,
        ⟨⟨(parent.frame.endChild env property (.pattern pattern?)
            st).1, parent.owner⟩ :: below, depth - 1⟩,
        (parent.frame.endChild env property (.pattern pattern?) st).2⟩
| error
    {fault fault' : Error}
    {above : List (Entry α)}
    {deep : Nat}
    {st st' : RenderState α}
    (hFault : fault'.unplaced = fault.unplaced)
    (hState : Stack.unwind ⟨above, deep⟩ st' = st) :
    Inlined env parent below depth property (.error fault, st)
      ⟨.error fault', ⟨above ++ parent :: below, deep⟩, st'⟩

/- Brushes that come out alike are seen alike. -/
theorem Fed.Inlined.congr
    {parent : Entry α}
    {below : List (Entry α)}
    {depth : Nat}
    {property : String}
    {outcome outcome' :
      Except Error (Option (Pattern α)) × RenderState α}
    {fed : Fed α}
    (hInlined : Inlined env parent below depth property outcome fed)
    (hResult : Except.Alike id outcome.1 outcome'.1)
    (hState : outcome'.2 = outcome.2) :
    Inlined env parent below depth property outcome' fed := by
  rcases outcome' with ⟨result', st'⟩
  cases hState
  cases hInlined with
  | ok pattern? st =>
      cases hResult
      exact .ok pattern? st
  | error hFault hUnwound =>
      cases hResult with
      | error hOther => exact .error (hFault.trans hOther.symm) hUnwound

/-
  A brush that is written inside a property element is seen by
  the frame around it when the property element ends.
-/
theorem feedAll_inlined
    {elements : Elements}
    {items : List (Location × Event)}
    (hTags : tagsOf items = elements.tags)
    (parent : Entry α)
    (below : List (Entry α))
    (depth : Nat)
    (property : String)
    (close : Location)
    (st : RenderState α) :
    Fed.Inlined env parent below depth property
      ((writtenBrush env elements).perform st)
      (Stack.feedAll env (startElement env (pageBrush env))
        ⟨⟨.brush none, depth⟩ :: parent :: below, depth⟩ st
        (items ++ [(close, .endTag property)])) := by
  have hTakes :=
    Stack.feedAll_take (pageElement_alike env .zero true) hTags
      (.brush none) (Nat.le_refl depth) (parent :: below) st
  unfold writtenBrush
  dsimp only
  rw [Action.perform_bind]
  generalize hTaken :
    (elements.take env (startElement env (pageBrush env))
      (.brush none)).perform st = outcome at hTakes ⊢
  rcases outcome with ⟨fault | frame, mid⟩
  · rcases hTakes.eq_error with ⟨_, _, _, _, hFed, hFault, hState⟩
    rw [Stack.feedAll_append_error hFed]
    exact .error hFault hState
  · rcases take_brush elements hTaken with ⟨pattern?, rfl⟩
    have hFinish :
        ((Frame.brush pattern?).finish env).perform mid =
          (.ok (.pattern pattern?), mid) :=
      rfl
    rw [Stack.feedAll_append hTakes.eq_ok,
      Stack.feedAll_cons_ok
        (Stack.feed_endTag_ok hFinish close property parent below
          depth)]
    exact .ok pattern? mid

/- A brush that is looked up comes out as its stored elements do. -/
theorem pageBrush_written
    {key markup name : String}
    {elements : Elements}
    {first last : Location}
    {body : List (Location × Event)}
    {st : RenderState α}
    (hStored : st.scope.get? key = some markup)
    (hMarkup :
      readText env.source markup =
        .ok (first, .startTag name [])
          :: (body.map .ok ++ [.ok (last, .endTag name)]))
    (hBody : tagsOf body = elements.tags) :
    Except.Alike id ((writtenBrush env elements).perform st).1
        ((pageBrush env key).perform st).1 ∧
      ((pageBrush env key).perform st).2 =
        ((writtenBrush env elements).perform st).2 := by
  have hTakes :=
    Stack.feedAll_take (pageElement_alike env .zero true) hBody
      (.brush none) (Nat.le_refl 1) [] st
  have hResource :
      (Action.resource key).perform st = (.ok markup, st) := by
    unfold Action.resource
    rw [Action.perform_ofEffect, hStored]
  have hRun :
      (runFragment env (startElement env (pageBrush env))
          (.brush none) none (readText env.source markup)).perform st =
        runOpenFragment env (startElement env (pageBrush env))
          ⟨[⟨.brush none, 1⟩], 1⟩ st
          (body.map .ok ++ [.ok (last, .endTag name)]) := by
    rw [hMarkup]
    rfl
  rw [pageBrush_eq_readBrush, readBrush,
    Action.perform_bind_ok hResource]
  unfold writtenBrush
  dsimp only
  rw [Action.perform_bind, Action.perform_bind, hRun]
  generalize hTaken :
    (elements.take env (startElement env (pageBrush env))
      (.brush none)).perform st = outcome at hTakes ⊢
  rcases outcome with ⟨fault | frame, mid⟩
  · rcases hTakes.eq_error with ⟨_, _, _, _, hFed, hFault, hState⟩
    rw [runOpenFragment_feedAll_error hFed, List.append_nil]
    exact ⟨.error hFault, hState⟩
  · rcases take_brush elements hTaken with ⟨pattern?, rfl⟩
    rw [runOpenFragment_feedAll hTakes.eq_ok]
    exact ⟨.ok pattern?, rfl⟩

------------------------------------------------------------
-- Dictionaries
------------------------------------------------------------

/- An element with a key is stored when it is fed to a dictionary. -/
theorem Stack.feedAll_stored
    (script : Script)
    {name key : String}
    {attributes : List Attribute}
    {inner : Elements}
    {entry : ResourceEntry}
    {items : List (Location × Event)}
    (hKey : valueOf? attributes keyAttribute = some key)
    (hEntry :
      (ResourceEntry.begin key name attributes).takeAll? inner.tags =
        some entry)
    (hTags :
      tagsOf items =
        (Elements.element name attributes inner .none).tags)
    {owner depth : Nat}
    (hOwner : owner ≤ depth)
    (below : List (Entry α))
    (st : RenderState α) :
    feedAll env (script.handler env)
        ⟨⟨.dictionary none, owner⟩ :: below, depth⟩ st items =
      ⟨.ok none, ⟨⟨.dictionary none, owner⟩ :: below, depth⟩,
        { st with scope := (st.scope.set key entry.markup).2 }⟩ := by
  rcases
    Elements.take_stored (script.handler_records env) hKey inner st with
    ⟨other, hOther, hTaken⟩
  rw [Option.some.inj (hOther.symm.trans hEntry)] at hTaken
  have hTakes :=
    feedAll_take (script.handler_alike env) hTags (.dictionary none)
      hOwner below st
  rw [hTaken] at hTakes
  exact hTakes.eq_ok

/-
  A brush element is stored as markup under its key by every
  dictionary. Wherever the key gives this markup, looking the
  brush up comes out as feeding the element to a property element
  that then ends: the same is drawn, the frame around it sees the
  same brush, the rest of the state is the same, and there are
  the same errors up to places.
-/
theorem pageBrush_inlined
    (env : Environment α)
    {name key : String}
    {attributes : List Attribute}
    {inner : Elements}
    (hName : IsName name)
    (hDistinct : Distinct attributes)
    (hNested : WellNested inner.tags)
    (hKey : valueOf? attributes keyAttribute = some key)
    (hUnkeyed : ∀ e ∈ inner.tags, e.Unkeyed)
    (hPlain :
      ∀ e ∈ Event.startTag name attributes :: inner.tags, e.Plain) :
    ∃ markup,
      (∀ (script : Script) (items : List (Location × Event))
        (below : List (Entry α)) (owner depth : Nat)
        (st : RenderState α),
        tagsOf items =
            (Elements.element name attributes inner .none).tags →
          owner ≤ depth →
            Stack.feedAll env (script.handler env)
                ⟨⟨.dictionary none, owner⟩ :: below, depth⟩ st items =
              ⟨.ok none, ⟨⟨.dictionary none, owner⟩ :: below, depth⟩,
                { st with scope := (st.scope.set key markup).2 }⟩) ∧
        (∀ (items : List (Location × Event)) (parent : Entry α)
          (below : List (Entry α)) (depth : Nat) (property : String)
          (close : Location) (st : RenderState α),
          tagsOf items =
              (Elements.element name attributes inner .none).tags →
            st.scope.get? key = some markup →
              Fed.Inlined env parent below depth property
                ((pageBrush env key).perform st)
                (Stack.feedAll env (startElement env (pageBrush env))
                  ⟨⟨.brush none, depth⟩ :: parent :: below, depth⟩ st
                  (items ++ [(close, .endTag property)]))) := by
  rcases
    ResourceEntry.readText_unkeyed hName hDistinct hNested hUnkeyed
      hPlain key env.source with
    ⟨entry, first, last, body, hEntry, hMarkup, hBody⟩
  refine ⟨entry.markup, ?_, ?_⟩
  · intro script items below owner depth st hTags hOwner
    exact
      Stack.feedAll_stored script hKey hEntry hTags hOwner below st
  · intro items parent below depth property close st hTags hStored
    have hWritten := pageBrush_written hStored hMarkup hBody
    rw [writtenBrush_unkeyed] at hWritten
    exact
      (feedAll_inlined hTags parent below depth property close
        st).congr hWritten.1 hWritten.2

end

------------------------------------------------------------
-- A tile
------------------------------------------------------------

namespace Tile

/- The attributes of a tile. -/
def attributes : List Attribute :=
  [⟨keyAttribute, "Tile"⟩, ⟨"Viewport", "0,0,1,1"⟩,
    ⟨"Viewbox", "0,0,1,1"⟩]

/- The content of a tile. -/
def inner : Elements :=
  .element "VisualBrush.Visual" []
    (.element "Canvas" [] .none .none) .none

/- The tags of a tile. -/
def items : List (Location × Event) :=
  (Elements.element "VisualBrush" attributes inner .none).tags.map
    fun tag => (⟨"page", 1, 1⟩, tag)

/- What the elements of a page do that has no other parts. -/
def handler : StartHandler ℚ :=
  startElement .empty (pageBrush .empty)

/- A path that has started. -/
def path : Entry ℚ :=
  ⟨.path ⟨.initial, false, false⟩, 1⟩

/- The state before a page is drawn but for the scope. -/
def state
    (scope : ResourceScope) : RenderState ℚ :=
  { RenderState.start .empty .empty .empty with scope := scope }

end Tile

/- A tile is stored, and looked up as it is written in a path. -/
theorem Tile.inlined :
    ∃ markup,
      Stack.feedAll .empty Tile.handler
            ⟨[⟨.dictionary none, 1⟩], 1⟩ (Tile.state .empty)
            Tile.items =
          ⟨.ok none, ⟨[⟨.dictionary none, 1⟩], 1⟩,
            Tile.state ⟨[[("Tile", markup)]]⟩⟩ ∧
        Fed.Inlined .empty Tile.path [] 2 "Path.Fill"
          ((pageBrush .empty "Tile").perform
            (Tile.state ⟨[[("Tile", markup)]]⟩))
          (Stack.feedAll .empty Tile.handler
            ⟨[⟨.brush none, 2⟩, Tile.path], 2⟩
            (Tile.state ⟨[[("Tile", markup)]]⟩)
            (Tile.items
              ++ [(⟨"page", 1, 1⟩, .endTag "Path.Fill")])) := by
  have hNested : WellNested Tile.inner.tags :=
    .element (by decide) (by decide)
      (.element (by decide) (by decide) .nil .nil) .nil
  rcases
    pageBrush_inlined (Environment.empty (α := ℚ))
      (show IsName "VisualBrush" by decide)
      (show Distinct Tile.attributes by decide) hNested
      (show valueOf? Tile.attributes keyAttribute = some "Tile" by
        decide)
      (by decide) (by decide) with
    ⟨markup, hStored, hInlined⟩
  refine ⟨markup, ?_, ?_⟩
  · exact hStored .page Tile.items [] 1 1 _ (by decide) (Nat.le_refl 1)
  · exact
      hInlined Tile.items Tile.path [] 2 "Path.Fill" _ _ (by decide)
        rfl

end FixedPage
