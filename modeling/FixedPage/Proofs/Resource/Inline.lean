import FixedPage.Proofs.Render.Effect
import FixedPage.Proofs.Resource.Shape
import FixedPage.Render.Opening.Content

/-
  This file follows a geometry that is written inside a path. If
  all of its tags are taken, its figures have been read, and each
  was painted when it ended.

  Main declarations:
    * `Stack.feedAll`
    * `paintFigure`
    * `feedAll_geometry`
-/

namespace FixedPage

open Markup

variable {α : Type} [Scalar α]

------------------------------------------------------------
-- Reading
------------------------------------------------------------

omit [Scalar α] in
/- What follows a reading that succeeds has succeeded. -/
theorem Except.ok_of_bind
    {β γ : Type}
    {x : Except Error β}
    {f : β → Except Error γ}
    {c : γ}
    (hOk : (x >>= f) = .ok c) :
    ∃ b, x = .ok b ∧ f b = .ok c := by
  cases x with
  | error fault => cases hOk
  | ok b => exact ⟨b, rfl, hOk⟩

omit [Scalar α] in
/- What is paired with no child after it succeeds has succeeded. -/
theorem Except.ok_of_map_none
    {β γ : Type}
    {x : Except Error β}
    {b : β}
    {child? : Option γ}
    (hOk : x.map (·, none) = .ok (b, child?)) :
    x = .ok b ∧ child? = none := by
  cases x with
  | error fault => cases hOk
  | ok b' =>
      cases hOk
      exact ⟨rfl, rfl⟩

namespace Element

variable {e : Element}

omit [Scalar α] in
/- A value that is read follows its grammar. -/
theorem of_read
    {β : Type}
    {name value : String}
    {grammar : String → Option β}
    {result : β}
    (hRead : e.read name grammar value = .ok result) :
    grammar value = some result := by
  unfold Element.read at hRead
  split at hRead <;> cases hRead
  assumption

omit [Scalar α] in
/- An attribute that is found is given. -/
theorem of_required
    {name value : String}
    (hFound : e.required name = .ok value) :
    valueOf? e.attributes name = some value := by
  unfold required Element.value? at hFound
  split at hFound <;> cases hFound
  assumption

end Element

omit [Scalar α] in
/- A flag that is not given is as it was known. -/
theorem flag?_of_not_mem
    {attributes : List Attribute}
    {name : String}
    (hNone : name ∉ attributes.map Attribute.name)
    (known : Bool) :
    flag? attributes name known = some known := by
  have hFind : valueOf? attributes name = none := by
    unfold valueOf?
    rw [Option.map_eq_none_iff, List.find?_eq_none]
    intro a hMem hIs
    rw [beq_iff_eq] at hIs
    exact hNone (hIs ▸ List.mem_map_of_mem hMem)
  unfold flag?
  rw [hFind]

omit [Scalar α] in
/- A flag that is given first. -/
theorem flag?_cons_self
    (a : Attribute)
    (rest : List Attribute)
    (known : Bool) :
    flag? (a :: rest) a.name known = Value.boolean? a.value := by
  simp [flag?, valueOf?]

omit [Scalar α] in
/- Other attributes leave a flag open. -/
theorem flag?_cons_of_ne
    {a : Attribute}
    {name : String}
    (hOther : a.name ≠ name)
    (rest : List Attribute)
    (known : Bool) :
    flag? (a :: rest) name known = flag? rest name known := by
  simp [flag?, valueOf?, hOther]

omit [Scalar α] in
/- The attributes of a figure set its flags. -/
theorem flags_of_foldlM
    {e : Element}
    {attributes : List Attribute}
    {state state' : PathState α}
    (hNodup : (attributes.map Attribute.name).Nodup)
    (hFold :
      attributes.foldlM (GeometryFrame.takeFigureAttribute e) state =
        .ok state') :
    flag? attributes "IsClosed" state.isClosed = some state'.isClosed ∧
      flag? attributes "IsFilled" state.isFilled =
        some state'.isFilled ∧
      state' =
        { state with
          isClosed := state'.isClosed
          isFilled := state'.isFilled } := by
  induction attributes generalizing state with
  | nil =>
      cases hFold
      exact ⟨rfl, rfl, rfl⟩
  | cons a rest ih =>
      rw [List.map_cons, List.nodup_cons] at hNodup
      rw [List.foldlM_cons] at hFold
      rcases Except.ok_of_bind hFold with ⟨next, hTake, hRest⟩
      rcases ih hNodup.2 hRest with ⟨hClosed, hFilled, hState⟩
      unfold GeometryFrame.takeFigureAttribute at hTake
      split at hTake
      · rename_i hName
        rcases Except.ok_of_bind hTake with ⟨flag, hRead, hNext⟩
        cases hNext
        rw [flag?_of_not_mem (hName ▸ hNodup.1)] at hClosed
        have hValue := flag?_cons_self a rest state.isClosed
        rw [hName, Element.of_read hRead] at hValue
        refine ⟨hValue.trans hClosed, ?_, hState⟩
        rw [flag?_cons_of_ne (by rw [hName]; decide)]
        exact hFilled
      · rename_i hName
        rcases Except.ok_of_bind hTake with ⟨flag, hRead, hNext⟩
        cases hNext
        rw [flag?_of_not_mem (hName ▸ hNodup.1)] at hFilled
        have hValue := flag?_cons_self a rest state.isFilled
        rw [hName, Element.of_read hRead] at hValue
        refine ⟨?_, hValue.trans hFilled, hState⟩
        rw [flag?_cons_of_ne (by rw [hName]; decide)]
        exact hClosed
      · rename_i hNotClosed hNotFilled
        cases hTake
        rw [flag?_cons_of_ne hNotClosed, flag?_cons_of_ne hNotFilled]
        exact ⟨hClosed, hFilled, hState⟩

/- A figure that starts has a first point and flags. -/
theorem shape_of_startFigure
    {f f' : GeometryFrame α}
    {e : Element}
    (hNodup : (e.attributes.map Attribute.name).Nodup)
    (hStart : f.startFigure e = .ok f') :
    ∃ value start closed filled,
      valueOf? e.attributes "StartPoint" = some value ∧
        Value.point? value = some start ∧
        flag? e.attributes "IsClosed" false = some closed ∧
        flag? e.attributes "IsFilled" true = some filled ∧
        f' =
          ⟨{ f.state with isClosed := closed, isFilled := filled },
            PathBuilder.empty.push (.moveTo start)⟩ := by
  unfold GeometryFrame.startFigure Element.readRequired at hStart
  rcases Except.ok_of_bind hStart with ⟨start, hRequired, hRest⟩
  rcases Except.ok_of_bind hRequired with ⟨value, hFound, hRead⟩
  rcases Except.ok_of_bind hRest with ⟨state, hFold, hNext⟩
  cases hNext
  rcases flags_of_foldlM hNodup hFold with ⟨hClosed, hFilled, hState⟩
  refine
    ⟨value, start, _, _, Element.of_required hFound,
      Element.of_read hRead, hClosed, hFilled, ?_⟩
  rw [hState]

/- Adds the points of a stroked segment. -/
def GeometryFrame.addPoints
    (f : GeometryFrame α)
    (e : Element)
    (value : String)
    (points : List (Point α)) : Except Error (GeometryFrame α) :=
  match f.figure.addPoints? e.name points with
  | some figure => pure { f with figure := figure }
  | none => .error (e.invalid "Points" value)

/- A segment that is added is read. -/
theorem shape_of_addSegment
    {f f' : GeometryFrame α}
    {s : SegmentMarkup}
    {place : Location}
    (hAdd :
      f.addSegment ⟨place, s.kind.element, s.attributes⟩ = .ok f') :
    ∃ shape figure,
      s.shape? = some shape ∧ shape.add? f.figure = some figure ∧
        f' = { f with figure := figure } := by
  unfold GeometryFrame.addSegment at hAdd
  rcases Except.ok_of_bind hAdd with ⟨value, hFound, hRest⟩
  rcases Except.ok_of_bind hRest with ⟨points, hRead, hRest⟩
  have hStroked :
      ∃ stroked,
        flag? s.attributes "IsStroked" true = some stroked ∧
          (if stroked = true then
            f.addPoints ⟨place, s.kind.element, s.attributes⟩
              value points
          else pure f) = .ok f' := by
    unfold flag?
    dsimp only at hRest
    unfold Element.value? at hRest
    cases hValue : valueOf? s.attributes "IsStroked" with
    | none =>
        rw [hValue] at hRest
        exact ⟨true, rfl, hRest⟩
    | some flag =>
        rw [hValue] at hRest
        rcases Except.ok_of_bind hRest with ⟨stroked, hFlag, hRest⟩
        exact ⟨stroked, Element.of_read hFlag, hRest⟩
  rcases hStroked with ⟨stroked, hFlag, hNext⟩
  have hShape : s.shape? = some ⟨s.kind, points, stroked⟩ :=
    SegmentMarkup.shape?_eq_some.mpr
      ⟨value, Element.of_required hFound, Element.of_read hRead, hFlag,
        rfl⟩
  cases stroked with
  | false =>
      cases hNext
      exact ⟨_, f.figure, hShape, rfl, rfl⟩
  | true =>
      rw [if_pos rfl] at hNext
      unfold GeometryFrame.addPoints at hNext
      dsimp only at hNext
      cases hFigure :
          f.figure.addPoints? s.kind.element points with
      | none =>
          rw [hFigure] at hNext
          cases hNext
      | some figure =>
          rw [hFigure] at hNext
          cases hNext
          exact ⟨_, figure, hShape, hFigure, rfl⟩

------------------------------------------------------------
-- Feeding
------------------------------------------------------------

omit [Scalar α] in
/- What became of a stack after events that were taken. -/
theorem Fed.eq_of_result
    {fed : Fed α}
    (hResult : fed.result = .ok none) :
    fed = ⟨.ok none, fed.stack, fed.state⟩ := by
  rcases fed with ⟨result, stack, st⟩
  cases hResult
  rfl

namespace Stack

/- Takes several events, until one of them fails or ends the root. -/
def feedAll
    (env : Environment α)
    (handler : StartHandler α)
    (stack : Stack α)
    (st : RenderState α) :
    List (Location × Event) → Fed α
| [] => ⟨.ok none, stack, st⟩
| (place, event) :: rest =>
    match stack.feed env handler place st event with
    | ⟨.ok none, stack, st⟩ => feedAll env handler stack st rest
    | fed => fed

omit [Scalar α] in
instance
    (result : Except Error (Option (Product α))) :
    Decidable (result = .ok none) :=
  match result with
  | .ok none => .isTrue rfl
  | .ok (some _) => .isFalse nofun
  | .error _ => .isFalse nofun

variable {env : Environment α} {handler : StartHandler α}
variable {st : RenderState α} {place : Location}

/- The first of some events that are taken is taken. -/
theorem feedAll_cons
    {stack : Stack α}
    {event : Event}
    {rest : List (Location × Event)}
    (hOk :
      (stack.feedAll env handler st ((place, event) :: rest)).result =
        .ok none) :
    ∃ next st',
      stack.feed env handler place st event = ⟨.ok none, next, st'⟩ ∧
        stack.feedAll env handler st ((place, event) :: rest) =
          next.feedAll env handler st' rest := by
  rw [feedAll] at hOk ⊢
  generalize stack.feed env handler place st event = fed at hOk ⊢
  rcases fed with ⟨result, stack', st'⟩
  rcases result with fault | _ | product
  · cases hOk
  · exact ⟨stack', st', rfl, rfl⟩
  · cases hOk

variable {top : Entry α} {below : List (Entry α)} {depth : Nat}

/- A part goes on after events that are taken. -/
theorem runPart_feedAll
    {stack : Stack α}
    {items : List (Location × Event)}
    {rest : List Item}
    (hOk : (stack.feedAll env handler st items).result = .ok none) :
    runPart env handler stack st (items.map .ok ++ rest) =
      runPart env handler (stack.feedAll env handler st items).stack
        (stack.feedAll env handler st items).state rest := by
  induction items generalizing stack st with
  | nil => rfl
  | cons item items ih =>
      rcases item with ⟨place, event⟩
      rcases feedAll_cons hOk with ⟨next, st', hFeed, hAll⟩
      rw [hAll] at hOk ⊢
      rw [List.map_cons, List.cons_append, runPart, hFeed]
      exact ih hOk

/- A start tag that is taken is seen by the top frame. -/
theorem feed_startTag
    {name : String}
    {attributes : List Attribute}
    {next : Stack α}
    {st' : RenderState α}
    (hFeed :
      feed env handler place ⟨top :: below, depth⟩ st
          (.startTag name attributes) =
        ⟨.ok none, next, st'⟩) :
    ∃ frame child?,
      (handler top.frame ⟨place, name, attributes⟩).perform st =
          (.ok (frame, child?), st') ∧
        next =
          ⟨(child?.map fun child => ⟨child, depth + 1⟩).toList
            ++ ⟨frame, top.owner⟩ :: below, depth + 1⟩ := by
  unfold feed startElement at hFeed
  dsimp only at hFeed
  split at hFeed
  · cases hFeed
  · rename_i frame child? _ hPerform
    cases hFeed
    exact ⟨frame, child?, hPerform, rfl⟩

/- An end tag inside the owner of the top frame is seen by it. -/
theorem feed_endTag
    (name : String)
    (hInside : top.owner ≠ depth) :
    feed env handler place ⟨top :: below, depth⟩ st (.endTag name) =
      ⟨.ok none,
        ⟨⟨(top.frame.endChild env name .none st).1, top.owner⟩ :: below,
          depth - 1⟩,
        (top.frame.endChild env name .none st).2⟩ := by
  unfold feed endElement
  dsimp only
  rw [if_pos (by simpa using hInside)]

end Stack

------------------------------------------------------------
-- Figures
------------------------------------------------------------

variable {env : Environment α} {lookup : BrushLookup α}
variable {st : RenderState α} {place : Location}
variable {f : GeometryFrame α} {owner depth : Nat}
variable {below : List (Entry α)}

/- A start tag inside a geometry changes the geometry only. -/
theorem feed_geometry
    {name : String}
    {attributes : List Attribute}
    {next : Stack α}
    {st' : RenderState α}
    (hFeed :
      Stack.feed env (startElement env lookup) place
          ⟨⟨.geometry f, owner⟩ :: below, depth⟩ st
          (.startTag name attributes) =
        ⟨.ok none, next, st'⟩) :
    ∃ f' child?,
      f.startChild ⟨place, name, attributes⟩ = .ok (f', child?) ∧
        st' = st ∧
        next =
          ⟨(child?.map fun child => ⟨child, depth + 1⟩).toList
            ++ ⟨.geometry f', owner⟩ :: below, depth + 1⟩ := by
  rcases Stack.feed_startTag hFeed with ⟨frame, child?, hPerform, hNext⟩
  unfold startElement at hPerform
  dsimp only at hPerform
  rw [Action.perform_bind, Action.perform_ofExcept] at hPerform
  cases hStart : f.startChild ⟨place, name, attributes⟩ with
  | error fault =>
      rw [hStart] at hPerform
      cases hPerform
  | ok started =>
      rcases started with ⟨f', started?⟩
      rw [hStart] at hPerform
      cases hPerform
      exact ⟨f', started?, rfl, rfl, hNext⟩

/- A segment is added to the figure under way. -/
theorem feedAll_segment
    {s : SegmentMarkup}
    {place' : Location}
    {rest : List (Location × Event)}
    (hInside : owner < depth)
    (hOk :
      (Stack.feedAll env (startElement env lookup)
        ⟨⟨.geometry f, owner⟩ :: below, depth⟩ st
        ((place, .startTag s.kind.element s.attributes)
          :: (place', .endTag s.kind.element) :: rest)).result =
        .ok none) :
    ∃ shape figure,
      s.shape? = some shape ∧ shape.add? f.figure = some figure ∧
        Stack.feedAll env (startElement env lookup)
            ⟨⟨.geometry f, owner⟩ :: below, depth⟩ st
            ((place, .startTag s.kind.element s.attributes)
              :: (place', .endTag s.kind.element) :: rest) =
          Stack.feedAll env (startElement env lookup)
            ⟨⟨.geometry { f with figure := figure }, owner⟩ :: below,
              depth⟩ st rest := by
  rcases Stack.feedAll_cons hOk with ⟨next, st₁, hStart, hAll⟩
  rcases feed_geometry hStart with
    ⟨f', child?, hChild, rfl, hNext⟩
  have hMap :
      (f.addSegment ⟨place, s.kind.element, s.attributes⟩).map
          (·, none) =
        .ok (f', child?) := by
    rw [← hChild]
    unfold GeometryFrame.startChild
    cases s.kind <;> rfl
  rcases Except.ok_of_map_none hMap with ⟨hAdd, rfl⟩
  rcases shape_of_addSegment hAdd with
    ⟨shape, figure, hShape, hFigure, rfl⟩
  refine ⟨shape, figure, hShape, hFigure, ?_⟩
  rw [hAll, hNext]
  have hChildEnd :
      (Frame.geometry { f with figure := figure }).endChild env
          s.kind.element .none st₁ =
        (.geometry { f with figure := figure }, st₁) := by
    cases s.kind <;> rfl
  rw [Stack.feedAll]
  dsimp only [Option.map_none, Option.toList_none, List.nil_append]
  rw [Stack.feed_endTag, hChildEnd]
  · rfl
  · dsimp only
    omega

/- Segments are added to the figure under way. -/
theorem feedAll_segments
    {segments : List SegmentMarkup}
    {items rest : List (Location × Event)}
    (hInside : owner < depth)
    (hEvents :
      items.map Prod.snd = segments.flatMap SegmentMarkup.events)
    (hOk :
      (Stack.feedAll env (startElement env lookup)
        ⟨⟨.geometry f, owner⟩ :: below, depth⟩ st
        (items ++ rest)).result = .ok none) :
    ∃ shapes figure,
      segments.mapM SegmentMarkup.shape? = some shapes ∧
        shapes.foldlM SegmentShape.add? f.figure = some figure ∧
        Stack.feedAll env (startElement env lookup)
            ⟨⟨.geometry f, owner⟩ :: below, depth⟩ st
            (items ++ rest) =
          Stack.feedAll env (startElement env lookup)
            ⟨⟨.geometry { f with figure := figure }, owner⟩ :: below,
              depth⟩ st rest := by
  induction segments generalizing f items with
  | nil =>
      rw [List.map_eq_nil_iff.mp hEvents] at hOk ⊢
      exact ⟨[], f.figure, rfl, rfl, rfl⟩
  | cons s segments ih =>
      rw [List.flatMap_cons] at hEvents
      rcases List.map_eq_cons_iff.mp hEvents with
        ⟨⟨place, _⟩, tail, rfl, rfl, hTail⟩
      rcases List.map_eq_cons_iff.mp hTail with
        ⟨⟨place', _⟩, more, rfl, rfl, hMore⟩
      rw [List.cons_append, List.cons_append] at hOk ⊢
      rcases feedAll_segment hInside hOk with
        ⟨shape, figure, hShape, hFigure, hAll⟩
      rw [hAll] at hOk ⊢
      rcases ih hMore hOk with ⟨shapes, figure', hShapes, hFold, hRest⟩
      have hRow :=
        mapM_cons_eq_some.mpr ⟨shape, shapes, hShape, hShapes, rfl⟩
      refine ⟨shape :: shapes, figure', hRow, ?_, hRest⟩
      rw [List.foldlM_cons, hFigure]
      exact hFold

/- Paints a figure with the style of a path. -/
def paintFigure
    (style : PathState α)
    (s : Surface α)
    (figure : PathBuilder α × Bool) : Surface α :=
  paintPath figure.1 style figure.2 s

/- The path of a figure and whether it is filled. -/
def FigureShape.painted?
    (f : FigureShape α) : Option (PathBuilder α × Bool) :=
  f.builder?.map (·, f.filled)

/- A figure is painted when it ends. -/
theorem feedAll_figure
    {figure : FigureMarkup}
    {items rest : List (Location × Event)}
    (hInside : owner ≤ depth)
    (hEvents : items.map Prod.snd = figure.events)
    (hOk :
      (Stack.feedAll env (startElement env lookup)
        ⟨⟨.geometry f, owner⟩ :: below, depth⟩ st
        (items ++ rest)).result = .ok none) :
    ∃ shape painted,
      figure.shape? = some shape ∧
        shape.painted? = some painted ∧
        Stack.feedAll env (startElement env lookup)
            ⟨⟨.geometry f, owner⟩ :: below, depth⟩ st
            (items ++ rest) =
          Stack.feedAll env (startElement env lookup)
            ⟨⟨.geometry
              ⟨{ f.state with
                isClosed := shape.closed
                isFilled := shape.filled }, .empty⟩, owner⟩ :: below,
              depth⟩
            (st.draw fun s => paintFigure f.state s painted) rest := by
  unfold FigureMarkup.events at hEvents
  rcases List.map_eq_cons_iff.mp hEvents with
    ⟨⟨place, _⟩, tail, rfl, rfl, hTail⟩
  rcases List.map_eq_append_iff.mp hTail with
    ⟨inner, last, rfl, hInner, hLast⟩
  rcases List.map_eq_cons_iff.mp hLast with
    ⟨⟨place', _⟩, after, rfl, rfl, hAfter⟩
  rw [List.map_eq_nil_iff.mp hAfter] at hOk ⊢
  rw [List.cons_append, List.append_assoc] at hOk ⊢
  rcases Stack.feedAll_cons hOk with ⟨next, st₁, hStart, hAll⟩
  rcases feed_geometry hStart with ⟨f', child?, hChild, rfl, hNext⟩
  rcases Except.ok_of_map_none (hChild : (f.startFigure
    ⟨place, "PathFigure", figure.attributes⟩).map (·, none) = _) with
    ⟨hBegin, rfl⟩
  rcases shape_of_startFigure figure.distinct.nodup hBegin with
    ⟨value, start, closed, filled, hValue, hStartPoint, hClosed,
      hFilled, rfl⟩
  rw [hAll, hNext] at hOk
  dsimp only [Option.map_none, Option.toList_none, List.nil_append]
    at hOk
  rcases feedAll_segments (by omega) hInner hOk with
    ⟨shapes, path, hShapes, hFold, hSegments⟩
  refine
    ⟨⟨start, closed, filled, shapes⟩,
      (if closed then path.push .close else path, filled), ?_, ?_, ?_⟩
  · exact
      FigureMarkup.shape?_eq_some.mpr
        ⟨value, hValue, hStartPoint, hClosed, hFilled, hShapes⟩
  · unfold FigureShape.painted? FigureShape.builder?
      FigureShape.open?
    rw [hFold]
    rfl
  · rw [hAll, hNext]
    dsimp only [Option.map_none, Option.toList_none, List.nil_append]
    rw [hSegments]
    rw [List.singleton_append, Stack.feedAll, Stack.feed_endTag]
    · rfl
    · dsimp only
      omega

/- The figures of a geometry are painted one after the other. -/
theorem feedAll_figures
    {figures : List FigureMarkup}
    {items rest : List (Location × Event)}
    (hInside : owner ≤ depth)
    (hEvents :
      items.map Prod.snd = figures.flatMap FigureMarkup.events)
    (hOk :
      (Stack.feedAll env (startElement env lookup)
        ⟨⟨.geometry f, owner⟩ :: below, depth⟩ st
        (items ++ rest)).result = .ok none) :
    ∃ shapes painted f',
      figures.mapM FigureMarkup.shape? = some shapes ∧
        shapes.mapM FigureShape.painted? = some painted ∧
        Stack.feedAll env (startElement env lookup)
            ⟨⟨.geometry f, owner⟩ :: below, depth⟩ st
            (items ++ rest) =
          Stack.feedAll env (startElement env lookup)
            ⟨⟨.geometry f', owner⟩ :: below, depth⟩
            (st.draw fun s => painted.foldl (paintFigure f.state) s)
            rest := by
  induction figures generalizing f st items with
  | nil =>
      rw [List.map_eq_nil_iff.mp hEvents] at hOk ⊢
      exact ⟨[], [], f, rfl, rfl, rfl⟩
  | cons figure figures ih =>
      rw [List.flatMap_cons] at hEvents
      rcases List.map_eq_append_iff.mp hEvents with
        ⟨first, more, rfl, hFirst, hMore⟩
      rw [List.append_assoc] at hOk ⊢
      rcases feedAll_figure hInside hFirst hOk with
        ⟨shape, painted, hShape, hPainted, hAll⟩
      rw [hAll] at hOk ⊢
      rcases ih hMore hOk with
        ⟨shapes, paints, f', hShapes, hPaints, hRest⟩
      have hRow :=
        mapM_cons_eq_some.mpr ⟨shape, shapes, hShape, hShapes, rfl⟩
      have hPaint :=
        mapM_cons_eq_some.mpr ⟨painted, paints, hPainted, hPaints, rfl⟩
      exact
        ⟨shape :: shapes, painted :: paints, f', hRow, hPaint, hRest⟩

------------------------------------------------------------
-- Geometries
------------------------------------------------------------

/- Attributes other than a transformation leave the surface alone. -/
theorem perform_geometryAttributes
    {attributes : List Attribute}
    (hNone : "Transform" ∉ attributes.map Attribute.name)
    (env : Environment α)
    (e : Element)
    (p : PathFrame α)
    (st : RenderState α) :
    ∃ rule,
      (attributes.foldlM (PathFrame.takeGeometryAttribute env e)
        p).perform st =
        (.ok { p with state := { p.state with fillRule := rule } },
          st) := by
  induction attributes generalizing p with
  | nil => exact ⟨p.state.fillRule, rfl⟩
  | cons a rest ih =>
      have hFirst : a.name ≠ "Transform" := by
        intro hIs
        exact hNone (by simp [hIs])
      have hRest : "Transform" ∉ rest.map Attribute.name := by
        intro hMem
        exact hNone (.tail _ hMem)
      have hTake :
          ∃ rule,
            (PathFrame.takeGeometryAttribute env e p a).perform st =
              (.ok { p with
                state := { p.state with fillRule := rule } }, st) := by
        unfold PathFrame.takeGeometryAttribute
        split
        · exact ⟨_, rfl⟩
        · exact absurd ‹_› hFirst
        · exact ⟨p.state.fillRule, rfl⟩
      rcases hTake with ⟨rule, hTake⟩
      rcases ih hRest
        { p with state := { p.state with fillRule := rule } } with
        ⟨rule', hAll⟩
      refine ⟨rule', ?_⟩
      rw [List.foldlM_cons, Action.perform_bind_ok hTake]
      exact hAll

omit [Scalar α] in
/- An attribute that is not given has no last value. -/
theorem lastValue?_of_not_mem
    {e : Element}
    {name : String}
    (hNone : name ∉ e.attributes.map Attribute.name) :
    PathFrame.lastValue? e name = none := by
  unfold PathFrame.lastValue?
  rw [Option.map_eq_none_iff, List.findRev?_eq_find?_reverse,
    List.find?_eq_none]
  intro a hMem hIs
  rw [beq_iff_eq] at hIs
  exact hNone (hIs ▸ List.mem_map_of_mem (List.mem_reverse.mp hMem))

/- A geometry starts a frame for its figures. -/
theorem geometry_of_startGeometry
    {p q : PathFrame α}
    {g : GeometryMarkup}
    {child? : Option (Frame α)}
    {st' : RenderState α}
    (hStart :
      (p.startGeometry env
        ⟨place, "PathGeometry", g.attributes⟩).perform st =
        (.ok (q, child?), st')) :
    ∃ rule,
      child? =
        some (.geometry
          ⟨{ p.state with fillRule := rule, clip? := none }, .empty⟩) := by
  rcases perform_geometryAttributes g.noTransform env
    ⟨place, "PathGeometry", g.attributes⟩ p st with ⟨rule, hAttributes⟩
  have hFigures :
      PathFrame.lastValue? ⟨place, "PathGeometry", g.attributes⟩
        "Figures" = none :=
    lastValue?_of_not_mem g.noFigures
  refine ⟨rule, ?_⟩
  unfold PathFrame.startGeometry at hStart
  rw [Action.perform_bind_ok hAttributes, hFigures] at hStart
  dsimp only at hStart
  rw [Action.perform_bind, Action.perform_draw] at hStart
  dsimp only at hStart
  rw [Action.perform_bind] at hStart
  split at hStart
  · cases hStart
    rfl
  · cases hStart

/- A geometry that is not clipping starts inside a path. -/
theorem feed_startGeometry
    {p : PathFrame α}
    {g : GeometryMarkup}
    {next : Stack α}
    {st' : RenderState α}
    (hPath : p.inClip = false)
    (hFeed :
      Stack.feed env (startElement env lookup) place
          ⟨⟨.path p, owner⟩ :: below, depth⟩ st
          (.startTag "PathGeometry" g.attributes) =
        ⟨.ok none, next, st'⟩) :
    ∃ q rule,
      next =
        ⟨⟨.geometry
            ⟨{ p.state with fillRule := rule, clip? := none }, .empty⟩,
            depth + 1⟩
          :: ⟨.path q, owner⟩ :: below, depth + 1⟩ := by
  rcases Stack.feed_startTag hFeed with ⟨frame, child?, hPerform, hNext⟩
  have hStart :
      p.startChild env ⟨place, "PathGeometry", g.attributes⟩ =
        if p.inClip = true then
          pure (p.takeClip ⟨place, "PathGeometry", g.attributes⟩, none)
        else
          p.startGeometry env ⟨place, "PathGeometry", g.attributes⟩ :=
    rfl
  rw [hPath, if_neg Bool.false_ne_true] at hStart
  unfold startElement at hPerform
  dsimp only at hPerform
  rw [hStart, Action.perform_bind] at hPerform
  split at hPerform
  · rename_i started _ hGeometry
    rcases started with ⟨q, started?⟩
    rcases geometry_of_startGeometry hGeometry with ⟨rule, rfl⟩
    cases hPerform
    exact ⟨q, rule, hNext⟩
  · cases hPerform

/-
  A geometry whose tags are taken inside a path has figures that
  can be read. Each of them is painted in turn, after what the
  start of the geometry draws.
-/
theorem feedAll_geometry
    {p : PathFrame α}
    {g : GeometryMarkup}
    {items : List (Location × Event)}
    (hPath : p.inClip = false)
    (hEvents : items.map Prod.snd = g.events)
    (hOk :
      (Stack.feedAll env (startElement env lookup)
        ⟨⟨.path p, owner⟩ :: below, depth⟩ st items).result =
        .ok none) :
    ∃ shapes painted,
      g.figures? = some shapes ∧
        shapes.mapM FigureShape.painted? = some painted ∧
        (Stack.feedAll env (startElement env lookup)
            ⟨⟨.path p, owner⟩ :: below, depth⟩ st items).state.surface =
          painted.foldl (paintFigure p.state)
            (Stack.feedAll env (startElement env lookup)
              ⟨⟨.path p, owner⟩ :: below, depth⟩ st
              (items.take 1)).state.surface := by
  rcases List.map_eq_cons_iff.mp hEvents with
    ⟨⟨place, _⟩, tail, rfl, rfl, hTail⟩
  rcases List.map_eq_append_iff.mp hTail with
    ⟨inner, last, rfl, hInner, hLast⟩
  rcases List.map_eq_cons_iff.mp hLast with
    ⟨⟨place', _⟩, after, rfl, rfl, hAfter⟩
  rw [List.map_eq_nil_iff.mp hAfter] at hOk ⊢
  rcases Stack.feedAll_cons hOk with ⟨next, st₁, hStart, hAll⟩
  rcases feed_startGeometry hPath hStart with ⟨q, rule, rfl⟩
  rw [hAll] at hOk
  rcases feedAll_figures (Nat.le_refl _) hInner hOk with
    ⟨shapes, painted, f', hShapes, hPainted, hFigures⟩
  refine ⟨shapes, painted, hShapes, hPainted, ?_⟩
  have hFirst :
      (Stack.feedAll env (startElement env lookup)
        ⟨⟨.path p, owner⟩ :: below, depth⟩ st
        [(place, .startTag "PathGeometry" g.attributes)]).state = st₁ := by
    rw [Stack.feedAll, hStart]
    rfl
  rw [hAll, hFigures, List.take_succ_cons, List.take_zero, hFirst]
  have hEnd :
      ∀ (style : PathState α) (figure : PathBuilder α)
        (st₂ : RenderState α),
        (Stack.feedAll env (startElement env lookup)
          ⟨⟨.geometry ⟨style, figure⟩, depth + 1⟩
            :: ⟨.path q, owner⟩ :: below, depth + 1⟩ st₂
          [(place', .endTag "PathGeometry")]).state = st₂ := by
    intro style figure st₂
    simp [Stack.feedAll, Stack.feed, Stack.endElement, Frame.finish,
      Frame.endChild, PathFrame.endChild]
  rw [hEnd]
  rfl

end FixedPage
