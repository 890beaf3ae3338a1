import FixedPage.Proofs.Mirror.Brush

/-
  This file shows that a dictionary in a part of its own does what
  it would do where it is referred to. Wherever a dictionary is
  written, its elements are stored one after the other up to the
  first one without a key, and a key keeps the first markup that
  is stored under it.

  Main declarations:
    * `Elements.entries`
    * `Elements.take_dictionary`
    * `ResourceScope.setAll_push`
    * `Fed.Matches`
    * `Stack.feedAll_resources`
    * `Stack.feedAll_sourced`
-/

namespace FixedPage

open Markup

variable {α : Type}

------------------------------------------------------------
-- Entries
------------------------------------------------------------

/- The markup that an element is stored as. -/
def ResourceEntry.markupOf
    (key name : String)
    (attributes : List Attribute)
    (inner : Elements) : String :=
  (((begin key name attributes).takeAll? inner.tags).map
    ResourceEntry.markup).getD ""

namespace Markup.Elements

/-
  The keys of the outermost elements with the markup that is
  stored under them, up to the first element without a key.
-/
def entries : Elements → List (String × String)
| none => []
| element name attributes inner rest =>
    match valueOf? attributes keyAttribute with
    | some key =>
        (key, ResourceEntry.markupOf key name attributes inner)
          :: rest.entries
    | .none => []

/- The name of the first outermost element without a key. -/
def unkeyed? : Elements → Option String
| none => .none
| element name attributes _ rest =>
    match valueOf? attributes keyAttribute with
    | some _ => rest.unkeyed?
    | .none => some name

/- An element without a key ends the dictionary that it is in. -/
def filled
    (elements : Elements) : Except Error Unit :=
  match elements.unkeyed? with
  | some name => .error (.missingAttribute .nowhere name keyAttribute)
  | .none => .ok ()

variable {name key : String}
variable {attributes : List Attribute} {inner rest : Elements}

theorem entries_keyed
    (hKey : valueOf? attributes keyAttribute = some key) :
    (element name attributes inner rest).entries =
      (key, ResourceEntry.markupOf key name attributes inner)
        :: rest.entries := by
  rw [entries, hKey]

theorem filled_keyed
    (hKey : valueOf? attributes keyAttribute = some key) :
    (element name attributes inner rest).filled = rest.filled := by
  unfold filled
  rw [unkeyed?, hKey]

theorem entries_unkeyed
    (hKey : valueOf? attributes keyAttribute = .none) :
    (element name attributes inner rest).entries = [] := by
  rw [entries, hKey]

theorem filled_unkeyed
    (hKey : valueOf? attributes keyAttribute = .none) :
    (element name attributes inner rest).filled =
      .error (.missingAttribute .nowhere name keyAttribute) := by
  unfold filled
  rw [unkeyed?, hKey]

end Markup.Elements

------------------------------------------------------------
-- Scopes
------------------------------------------------------------

namespace ResourceScope

/- Stores several entries in the innermost dictionary. -/
def setAll
    (entries : List (String × String))
    (s : ResourceScope) : ResourceScope :=
  entries.foldl (fun s entry => (s.set entry.1 entry.2).2) s

/-
  Storing an entry in a dictionary leaves those around it. What is
  found in it is found again, and the entry behind that.
-/
theorem set_lookup
    (key markup : String)
    (dictionary : ResourceDictionary)
    (outer : List ResourceDictionary) :
    ∃ next : ResourceDictionary,
      (set key markup ⟨dictionary :: outer⟩).2 = ⟨next :: outer⟩ ∧
        ∀ name,
          next.lookup name =
            (dictionary.lookup name).or
              ([(key, markup)].lookup name) := by
  unfold set
  dsimp only
  cases hFound : dictionary.lookup key with
  | some found =>
      rw [Option.isSome_some, if_pos rfl]
      refine ⟨dictionary, rfl, fun name => ?_⟩
      by_cases hName : name = key
      · rw [hName, hFound, Option.some_or]
      · have hOther : (name == key) = false :=
          beq_eq_false_iff_ne.mpr hName
        rw [List.lookup_cons, hOther]
        exact Option.or_none.symm
  | none =>
      rw [Option.isSome_none, if_neg Bool.false_ne_true]
      refine ⟨(key, markup) :: dictionary, rfl, fun name => ?_⟩
      by_cases hName : name = key
      · rw [hName, hFound, List.lookup_cons, List.lookup_cons,
          beq_self_eq_true]
        rfl
      · have hOther : (name == key) = false :=
          beq_eq_false_iff_ne.mpr hName
        rw [List.lookup_cons, List.lookup_cons, hOther]
        exact Option.or_none.symm

/- So does storing several entries, by induction on them. -/
theorem setAll_lookup
    (entries : List (String × String))
    (dictionary : ResourceDictionary)
    (outer : List ResourceDictionary) :
    ∃ next : ResourceDictionary,
      setAll entries ⟨dictionary :: outer⟩ = ⟨next :: outer⟩ ∧
        ∀ name,
          next.lookup name =
            (dictionary.lookup name).or (entries.lookup name) := by
  induction entries generalizing dictionary with
  | nil => exact ⟨dictionary, rfl, fun _ => Option.or_none.symm⟩
  | cons entry entries ih =>
      rcases set_lookup entry.1 entry.2 dictionary outer with
        ⟨mid, hSet, hMid⟩
      rcases ih mid with ⟨next, hNext, hLookup⟩
      refine ⟨next, ?_, fun name => ?_⟩
      · rw [← hNext, ← hSet]
        rfl
      · rw [hLookup, hMid, Option.or_assoc]
        congr 1
        rw [List.lookup_cons, List.lookup_cons]
        cases name == entry.1 with
        | true => rfl
        | false => rfl

/- A new dictionary holds the first markup under every key. -/
theorem setAll_push
    (entries : List (String × String))
    (s : ResourceScope) :
    ∃ dictionary : ResourceDictionary,
      s.push.setAll entries = ⟨dictionary :: s.dictionaries⟩ ∧
        ∀ key, dictionary.lookup key = entries.lookup key := by
  rcases setAll_lookup entries [] s.dictionaries with
    ⟨dictionary, hDictionary, hLookup⟩
  refine ⟨dictionary, hDictionary, fun key => ?_⟩
  rw [hLookup, List.lookup_nil, Option.none_or]

end ResourceScope

/- Stores several entries in the innermost dictionary. -/
def RenderState.store
    (entries : List (String × String))
    (st : RenderState α) : RenderState α :=
  { st with scope := st.scope.setAll entries }

------------------------------------------------------------
-- Filling a dictionary
------------------------------------------------------------

section

variable [Scalar α] {env : Environment α} {handler : StartHandler α}

/-
  A dictionary stores the entries of its elements one after the
  other, by induction on the elements.
-/
theorem Markup.Elements.take_dictionary
    (hRecords : StartHandler.Records handler)
    (elements : Elements)
    (st : RenderState α) :
    (elements.take env handler (.dictionary .none)).perform st =
      (elements.filled.map fun _ => .dictionary .none,
        st.store elements.entries) := by
  induction elements generalizing st with
  | none => rfl
  | element name attributes inner rest _ ih =>
      cases hKey : valueOf? attributes keyAttribute with
      | none =>
          have hStart :
              (startStored (α := α) (.dictionary .none)
                  ⟨.nowhere, name, attributes⟩).perform st =
                (.error
                  (.missingAttribute .nowhere name keyAttribute),
                  st) := by
            simp [startStored, startEntry, Element.required,
              Element.value?, hKey]
            rfl
          rw [take, hRecords, Action.perform_bind,
            Action.perform_onError, hStart, filled_unkeyed hKey,
            entries_unkeyed hKey]
          rfl
      | some key =>
          have hStored :=
            @take_stored α _ env handler hRecords name key attributes
              hKey inner st
          rcases hStored with ⟨entry, hEntry, hTaken⟩
          have hMarkup :
              ResourceEntry.markupOf key name attributes inner =
                entry.markup := by
            unfold ResourceEntry.markupOf
            rw [hEntry]
            rfl
          have hFirst :
              element name attributes inner rest =
                element name attributes inner .none ++ rest :=
            rfl
          rw [hFirst, take_append, Action.perform_bind_ok hTaken, ih,
            ← hFirst, filled_keyed hKey, entries_keyed hKey, hMarkup]
          rfl

------------------------------------------------------------
-- Owners of dictionaries
------------------------------------------------------------

/-
  Elements inside the owner of a dictionary come out as some
  elements inside that dictionary.
-/
def Markup.Elements.Fills
    (env : Environment α)
    (lookup : BrushLookup α)
    (inner elements : Elements) : Prop :=
  ∀ st : RenderState α,
    let outcome :=
      (elements.take env (startElement env lookup)
        (.resources false)).perform st
    Except.Alike id (inner.filled.map fun _ => Frame.resources false)
        outcome.1 ∧
      outcome.2 = st.store inner.entries

/- A dictionary that is written is filled with its elements. -/
theorem Markup.Elements.fills_inline
    (env : Environment α)
    (lookup : BrushLookup α)
    {attributes : List Attribute}
    (hInline : valueOf? attributes "Source" = .none)
    (inner : Elements) :
    Fills env lookup inner
      (element "ResourceDictionary" attributes inner .none) := by
  intro st
  have hStart :
      (startElement env lookup (.resources false)
          ⟨.nowhere, "ResourceDictionary", attributes⟩).perform st =
        (.ok (.resources false, some (.dictionary .none)), st) := by
    simp [startElement, startResources, Element.value?, hInline]
  rw [take, Action.perform_bind, Action.perform_onError, hStart]
  dsimp only
  rw [Action.perform_bind, Action.perform_onError,
    Action.perform_bind, take_dictionary (startElement_records _ _)]
  cases inner.filled with
  | error fault => exact ⟨.error rfl, rfl⟩
  | ok _ => exact ⟨.ok (Frame.resources false), rfl⟩

/-
  A part holds a dictionary with some elements when its events are
  those of the dictionary, wherever they are and whatever text is
  between them.
-/
def Environment.HoldsDictionary
    (env : Environment α)
    (source : String)
    (inner : Elements) : Prop :=
  let name := PartName.resolve env.source (Text.trimString source)
  ∃ content first attributes body last rest,
    env.part? name = some content ∧
      readBytes name content =
          .ok
            (.ok (first, .startTag "ResourceDictionary" attributes)
              :: (body.map .ok
                ++ .ok (last, .endTag "ResourceDictionary")
                  :: rest)) ∧
        tagsOf body = inner.tags

/- The elements of a dictionary are loaded from its part. -/
theorem loadDictionary_held
    {source : String}
    {inner : Elements}
    (hHolds : env.HoldsDictionary source inner)
    (st : RenderState α) :
    Except.Alike id inner.filled
        ((loadDictionary env source).perform st).1 ∧
      ((loadDictionary env source).perform st).2 =
        st.store inner.entries := by
  rcases hHolds with
    ⟨content, first, attributes, body, last, rest, hPart, hContent,
      hBody⟩
  have hStarts :
      StartsAlike env .zero true (startStored (α := α)) :=
    startStored_alike
  have hTakes :=
    Stack.feedAll_take hStarts hBody (.dictionary none) (Nat.le_refl 1)
      [] st
  rw [Elements.take_dictionary startStored_records] at hTakes
  have hRun :
      (runFragment env startStored (.dictionary none)
          (some "ResourceDictionary")
          (.ok (first, .startTag "ResourceDictionary" attributes)
            :: (body.map .ok
              ++ .ok (last, .endTag "ResourceDictionary")
                :: rest))).perform st =
        runOpenFragment env startStored
          ⟨[⟨.dictionary none, 1⟩], 1⟩ st
          (body.map .ok
            ++ .ok (last, .endTag "ResourceDictionary") :: rest) :=
    rfl
  unfold loadDictionary
  dsimp only
  rw [hPart]
  dsimp only
  rw [hContent, Action.perform_bind, Action.perform_ofExcept]
  dsimp only
  rw [Action.perform_bind, hRun]
  cases hFilled : inner.filled with
  | error fault =>
      rw [hFilled] at hTakes
      rcases hTakes.eq_error with ⟨_, _, _, _, hFed, hFault, hState⟩
      rw [runOpenFragment_feedAll_error hFed, List.append_nil]
      exact ⟨.error hFault, hState⟩
  | ok _ =>
      rw [hFilled] at hTakes
      rw [runOpenFragment_feedAll hTakes.eq_ok]
      exact ⟨.ok (), rfl⟩

/-
  A dictionary that is referred to is filled with the elements in
  its part.
-/
theorem Markup.Elements.fills_sourced
    (lookup : BrushLookup α)
    {attributes : List Attribute}
    {source : String}
    {inner : Elements}
    (hSource : valueOf? attributes "Source" = some source)
    (hHolds : env.HoldsDictionary source inner) :
    Fills env lookup inner
      (element "ResourceDictionary" attributes .none .none) := by
  intro st
  rcases loadDictionary_held hHolds st with ⟨hResult, hState⟩
  have hStart :
      (startElement env lookup (.resources false)
          ⟨.nowhere, "ResourceDictionary", attributes⟩) =
        (do
          loadDictionary env source
          pure (.resources true, .none)) := by
    simp [startElement, startResources, Element.value?, hSource]
  rw [take, Action.perform_bind, Action.perform_onError, hStart,
    Action.perform_bind]
  generalize (loadDictionary env source).perform st = outcome
    at hResult hState ⊢
  rcases outcome with ⟨result, loaded⟩
  dsimp only at hResult hState
  rw [hState]
  cases hFilled : inner.filled with
  | error fault =>
      rw [hFilled] at hResult
      cases hResult with
      | error hFault => exact ⟨.error hFault, rfl⟩
  | ok _ =>
      rw [hFilled] at hResult
      cases hResult
      exact ⟨.ok (Frame.resources false), rfl⟩

------------------------------------------------------------
-- Resources
------------------------------------------------------------

/- A frame opens a dictionary for the resources of its owner. -/
inductive Frame.OpensResources :
    Frame α → String → Frame α → Prop
| content
    (f : ContentFrame α) :
    OpensResources (.content f) "FixedPage.Resources"
      (.content { f with dictionaries := f.dictionaries + 1 })
| canvas
    (f : CanvasFrame α) :
    OpensResources (.canvas f) "Canvas.Resources"
      (.canvas { f with dictionaries := f.dictionaries + 1 })

namespace Frame.OpensResources

variable {frame opened : Frame α} {property : String}

/- The property element opens it. -/
theorem start
    (hOpens : frame.OpensResources property opened)
    (env : Environment α)
    (lookup : BrushLookup α)
    (place : Location)
    (attributes : List Attribute)
    (st : RenderState α) :
    (startElement env lookup frame
        ⟨place, property, attributes⟩).perform st =
      (.ok (opened, some (.resources false)),
        { st with scope := st.scope.push }) := by
  cases hOpens with
  | content f => rfl
  | canvas f => rfl

/- It stays open when the property element ends. -/
theorem endChild
    (hOpens : frame.OpensResources property opened)
    (env : Environment α)
    (st : RenderState α) :
    opened.endChild env property .none st = (opened, st) := by
  cases hOpens with
  | content f => rfl
  | canvas f => rfl

end Frame.OpensResources

section

variable {frame opened : Frame α} {property : String}
variable {attributes : List Attribute} {inner elements : Elements}
variable {items : List (Location × Event)}

/-
  The property element is followed by the elements in it, which
  the owner of the dictionary takes, and by its end.
-/
theorem Stack.feedAll_opensResources
    (budget : Nat)
    (hOpens : frame.OpensResources property opened)
    (hTags :
      tagsOf items =
        (Elements.element property attributes elements .none).tags)
    (owner : Nat)
    (below : List (Entry α))
    (depth : Nat)
    (st : RenderState α) :
    let handler :=
      FixedPage.startElement env (storedBrush env budget)
    let inside : Stack α :=
      ⟨⟨.resources false, depth + 1⟩ :: ⟨opened, owner⟩ :: below,
        depth + 1⟩
    let pushed := { st with scope := st.scope.push }
    ∃ within close rest,
      feedAll env handler ⟨⟨frame, owner⟩ :: below, depth⟩ st items =
          inside.feedAll env handler pushed
            (within ++ (close, .endTag property) :: rest) ∧
        tagsOf rest = [] ∧
          Fed.Takes env .zero true (depth + 1)
            (⟨opened, owner⟩ :: below) (depth + 1)
            ((elements.take env handler (.resources false)).perform
              pushed)
            (inside.feedAll env handler pushed within) := by
  intro handler inside pushed
  rcases tagsOf_eq_element hTags with
    ⟨lead, place, within, gap, close, rest, rfl, hLead, hWithin,
      hGap, hRest⟩
  have hInside : tagsOf (within ++ gap) = elements.tags := by
    unfold tagsOf at hWithin hGap ⊢
    rw [List.filterMap_append, hWithin, hGap, List.append_nil]
  refine ⟨within ++ gap, close, rest, ?_, hRest, ?_⟩
  · have hStart :=
      hOpens.start env (storedBrush env budget) place attributes st
    rw [feedAll_text hLead,
      feedAll_cons_ok (feed_startTag_ok hStart owner below depth),
      List.append_assoc]
    rfl
  · have hStarts : StartsAlike env .zero true handler :=
      startElement_alike (storedBrush_alike budget)
    exact
      feedAll_take hStarts hInside (.resources false)
        (Nat.le_refl (depth + 1)) (⟨opened, owner⟩ :: below) pushed

/-
  The resources of an element are taken when what is in them fills
  a dictionary with elements that all have keys.
-/
theorem Stack.feedAll_filled
    (budget : Nat)
    (hOpens : frame.OpensResources property opened)
    (hFills : inner.Fills env (storedBrush env budget) elements)
    (hTags :
      tagsOf items =
        (Elements.element property attributes elements .none).tags)
    (hFilled : inner.filled = .ok ())
    (owner : Nat)
    (below : List (Entry α))
    (depth : Nat)
    (st : RenderState α) :
    feedAll env (FixedPage.startElement env (storedBrush env budget))
        ⟨⟨frame, owner⟩ :: below, depth⟩ st items =
      ⟨.ok none, ⟨⟨opened, owner⟩ :: below, depth⟩,
        { st with scope := st.scope.push.setAll inner.entries }⟩ := by
  rcases feedAll_opensResources budget hOpens hTags owner below depth st
    with ⟨within, close, rest, hFed, hRest, hTakes⟩
  rcases hFills { st with scope := st.scope.push } with
    ⟨hResult, hState⟩
  rw [hFed]
  generalize
    (elements.take env
      (FixedPage.startElement env (storedBrush env budget))
      (.resources false)).perform
      { st with scope := st.scope.push } = outcome
    at hTakes hResult hState
  rcases outcome with ⟨result, filled⟩
  cases hState
  rw [hFilled] at hResult
  cases hResult
  have hFinish (st : RenderState α) :
      ((Frame.resources false).finish env).perform st =
        (.ok .none, st) :=
    rfl
  refine (feedAll_append hTakes.eq_ok _).trans ?_
  refine
    (feedAll_cons_ok
      (feed_endTag_ok (hFinish _) close property ⟨opened, owner⟩ below
        (depth + 1)) _).trans ?_
  rw [hOpens.endChild, ← rest.append_nil, feedAll_text hRest]
  rfl

/-
  They fail when what is in them fills a dictionary with elements
  of which one has no key. What the elements before it have stored
  is left to be dropped by the frame that opened the dictionary.
-/
theorem Stack.feedAll_unfilled
    (budget : Nat)
    (hOpens : frame.OpensResources property opened)
    (hFills : inner.Fills env (storedBrush env budget) elements)
    (hTags :
      tagsOf items =
        (Elements.element property attributes elements .none).tags)
    {fault : Error}
    (hFilled : inner.filled = .error fault)
    (owner : Nat)
    (below : List (Entry α))
    (depth : Nat)
    (st : RenderState α) :
    ∃ fault' above deep last,
      feedAll env (FixedPage.startElement env (storedBrush env budget))
          ⟨⟨frame, owner⟩ :: below, depth⟩ st items =
        ⟨.error fault',
          ⟨above ++ ⟨opened, owner⟩ :: below, deep⟩, last⟩ ∧
        fault'.unplaced = fault.unplaced ∧
          unwind ⟨above, deep⟩ last =
            { st with
              scope := st.scope.push.setAll inner.entries } := by
  rcases feedAll_opensResources budget hOpens hTags owner below depth st
    with ⟨within, close, rest, hFed, hRest, hTakes⟩
  rcases hFills { st with scope := st.scope.push } with
    ⟨hResult, hState⟩
  rw [hFed]
  generalize
    (elements.take env
      (FixedPage.startElement env (storedBrush env budget))
      (.resources false)).perform
      { st with scope := st.scope.push } = outcome
    at hTakes hResult hState
  rcases outcome with ⟨result, filled⟩
  cases hState
  rw [hFilled] at hResult
  cases hResult with
  | error hFault =>
      rcases hTakes.eq_error with
        ⟨fault', above, deep, last, hError, hOther, hUnwound⟩
      exact
        ⟨fault', above, deep, last, feedAll_append_error hError _,
          hOther.trans hFault, hUnwound⟩

end

------------------------------------------------------------
-- A dictionary in two places
------------------------------------------------------------

/-
  Two ways to take some events come to the same: both are taken
  and leave the same, or there are errors that agree up to places,
  and the same is left when every frame has been given up.
-/
structure Fed.Matches
    (fed fed' : Fed α) : Prop where
  result : Except.Alike id fed.result fed'.result
  taken : ∀ product?, fed.result = .ok product? → fed' = fed
  unwound :
    fed'.stack.unwind fed'.state = fed.stack.unwind fed.state

omit [Scalar α] in
/- The same failure at two places. -/
theorem Fed.Matches.error
    {fault fault' : Error}
    {stack stack' : Stack α}
    {st st' : RenderState α}
    (hFault : fault'.unplaced = fault.unplaced)
    (hUnwound : stack'.unwind st' = stack.unwind st) :
    Matches ⟨.error fault, stack, st⟩ ⟨.error fault', stack', st'⟩ where
  result := .error hFault
  taken _ hOk := by cases hOk
  unwound := hUnwound

omit [Scalar α] in
/- Frames that lie on others are given up first. -/
theorem Stack.unwind_append
    (above below : List (Entry α))
    (deep : Nat)
    (st : RenderState α) :
    unwind ⟨above ++ below, deep⟩ st =
      unwind ⟨below, deep⟩ (unwind ⟨above, deep⟩ st) :=
  List.foldl_append

/-
  The resources of a page or a canvas come to the same whether
  they hold a dictionary, or refer to a part that holds it. They
  are taken if every element of the dictionary has a key. Then one
  more dictionary is in scope, with the markup of the first
  element under each key, and nothing else has changed. Otherwise
  there is an error which names the first element without a key.
-/
theorem Stack.feedAll_sourced
    (env : Environment α)
    (budget : Nat)
    {frame opened : Frame α}
    {property source : String}
    {attributes attributes' written sourced : List Attribute}
    {inner : Elements}
    {items items' : List (Location × Event)}
    (hOpens : frame.OpensResources property opened)
    (hWritten : valueOf? written "Source" = none)
    (hSourced : valueOf? sourced "Source" = some source)
    (hHolds : env.HoldsDictionary source inner)
    (hTags :
      tagsOf items =
        (Elements.element property attributes
          (.element "ResourceDictionary" written inner .none)
          .none).tags)
    (hTags' :
      tagsOf items' =
        (Elements.element property attributes'
          (.element "ResourceDictionary" sourced .none .none)
          .none).tags)
    (owner : Nat)
    (below : List (Entry α))
    (depth : Nat)
    (st : RenderState α) :
    let handler :=
      FixedPage.startElement env (storedBrush env budget)
    let stack : Stack α := ⟨⟨frame, owner⟩ :: below, depth⟩
    let fed := stack.feedAll env handler st items
    Fed.Matches fed (stack.feedAll env handler st items') ∧
      match inner.unkeyed? with
      | none =>
          ∃ dictionary : ResourceDictionary,
            fed =
                ⟨.ok none, ⟨⟨opened, owner⟩ :: below, depth⟩,
                  { st with
                    scope :=
                      ⟨dictionary :: st.scope.dictionaries⟩ }⟩ ∧
              ∀ key, dictionary.lookup key = inner.entries.lookup key
      | some name =>
          ∃ place,
            fed.result =
              .error (.missingAttribute place name keyAttribute) := by
  intro handler stack fed
  have hInline :=
    Elements.fills_inline env (storedBrush env budget) hWritten inner
  have hLoaded :=
    Elements.fills_sourced (storedBrush env budget) hSourced hHolds
  cases hUnkeyed : inner.unkeyed? with
  | none =>
      have hFilled : inner.filled = .ok () := by
        unfold Elements.filled
        rw [hUnkeyed]
      have hFed :=
        feedAll_filled budget hOpens hInline hTags hFilled owner below
          depth st
      have hFed' :=
        feedAll_filled budget hOpens hLoaded hTags' hFilled owner below
          depth st
      have hSame : stack.feedAll env handler st items' = fed :=
        hFed'.trans hFed.symm
      rw [hSame]
      refine ⟨⟨.refl _, fun _ _ => rfl, rfl⟩, ?_⟩
      rcases ResourceScope.setAll_push inner.entries st.scope with
        ⟨dictionary, hScope, hLookup⟩
      refine ⟨dictionary, ?_, hLookup⟩
      rw [← hScope]
      exact hFed
  | some name =>
      have hFilled :
          inner.filled =
            .error (.missingAttribute .nowhere name keyAttribute) := by
        unfold Elements.filled
        rw [hUnkeyed]
      rcases feedAll_unfilled budget hOpens hInline hTags hFilled owner
        below depth st with
        ⟨fault, above, deep, last, hFed, hFault, hUnwound⟩
      rcases feedAll_unfilled budget hOpens hLoaded hTags' hFilled owner
        below depth st with
        ⟨fault', above', deep', last', hFed', hFault', hUnwound'⟩
      have hIs : fed = _ := hFed
      have hIs' : stack.feedAll env handler st items' = _ := hFed'
      rw [hIs, hIs']
      refine ⟨.error (hFault'.trans hFault.symm) ?_, ?_⟩
      · rw [unwind_append, unwind_append]
        change
          unwind ⟨⟨opened, owner⟩ :: below, deep'⟩
              (unwind ⟨above', deep'⟩ last') =
            unwind ⟨⟨opened, owner⟩ :: below, deep'⟩
              (unwind ⟨above, deep⟩ last)
        rw [hUnwound, hUnwound']
      · cases fault with
        | missingAttribute place element missing =>
            cases hFault
            exact ⟨place, rfl⟩
        | _ => cases hFault

end

------------------------------------------------------------
-- Two inks
------------------------------------------------------------

namespace Inks

/- Two colors under one key. -/
def inner : Elements :=
  .element "SolidColorBrush"
    [⟨keyAttribute, "Ink"⟩, ⟨"Color", "#000000"⟩] .none
    (.element "SolidColorBrush"
      [⟨keyAttribute, "Ink"⟩, ⟨"Color", "#FFFFFF"⟩] .none .none)

/- The part that holds a dictionary with the colors. -/
def content : List UInt8 :=
  Text.Utf8.encode
    ("<ResourceDictionary>"
      ++ "<SolidColorBrush x:Key=\"Ink\" Color=\"#000000\"/>"
      ++ "<SolidColorBrush x:Key=\"Ink\" Color=\"#FFFFFF\"/>"
      ++ "</ResourceDictionary>").toList

/- A page beside the part. -/
def env : Environment ℚ :=
  { Environment.empty with
    part? := fun name => if name == "/inks" then some content else none }

/- The tags of the resources of the page. -/
def items
    (dictionary : Elements) : List (Location × Event) :=
  (Elements.element "FixedPage.Resources" [] dictionary .none).tags.map
    (Prod.mk ⟨"page", 1, 1⟩)

/- The dictionary where it is written. -/
def written : List (Location × Event) :=
  items (.element "ResourceDictionary" [] inner .none)

/- A reference to the part. -/
def sourced : List (Location × Event) :=
  items (.element "ResourceDictionary" [⟨"Source", "/inks"⟩] .none .none)

/- What the page makes of its resources. -/
def feedAll
    (items : List (Location × Event)) : Fed ℚ :=
  Stack.feedAll env (startElement env (storedBrush env 33))
    ⟨[⟨.content ⟨none, 0⟩, 0⟩], 1⟩ (.start .empty .empty .empty) items

/- The part holds the dictionary. -/
theorem holds :
    env.HoldsDictionary "/inks" inner := by
  refine
    ⟨content, ⟨"/inks", 1, 1⟩, [],
      List.zip
        [⟨"/inks", 1, 21⟩, ⟨"/inks", 1, 21⟩, ⟨"/inks", 1, 67⟩,
          ⟨"/inks", 1, 67⟩]
        inner.tags,
      ⟨"/inks", 1, 113⟩, [], ?_, ?_, ?_⟩
  · decide +kernel
  · decide +kernel
  · decide +kernel

end Inks

/-
  The page takes the dictionary, and has the first color under the
  key.
-/
theorem Inks.matched :
    Fed.Matches (Inks.feedAll Inks.written)
        (Inks.feedAll Inks.sourced) ∧
      ∃ dictionary : ResourceDictionary,
        Inks.feedAll Inks.written =
            ⟨.ok none, ⟨[⟨.content ⟨none, 1⟩, 0⟩], 1⟩,
              { RenderState.start .empty .empty .empty with
                scope := ⟨[dictionary]⟩ }⟩ ∧
          ∀ key,
            dictionary.lookup key = Inks.inner.entries.lookup key :=
  Stack.feedAll_sourced Inks.env 33 (.content ⟨none, 0⟩)
    (show valueOf? [] "Source" = none by decide)
    (show valueOf? [⟨"Source", "/inks"⟩] "Source" = some "/inks" by
      decide)
    Inks.holds
    (show
      tagsOf Inks.written =
        (Elements.element "FixedPage.Resources" []
          (.element "ResourceDictionary" [] Inks.inner .none)
          .none).tags from
      tagsOf_eq_tags (by decide))
    (show
      tagsOf Inks.sourced =
        (Elements.element "FixedPage.Resources" []
          (.element "ResourceDictionary" [⟨"Source", "/inks"⟩] .none
            .none)
          .none).tags from
      tagsOf_eq_tags (by decide))
    0 [] 1 (.start .empty .empty .empty)

end FixedPage
