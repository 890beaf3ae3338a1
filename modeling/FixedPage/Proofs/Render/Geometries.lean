import FixedPage.Proofs.Render.Active
import FixedPage.Proofs.Resource.Inline

/-
  This file follows a path through a run, from the start of its
  element until its end, and the geometries that it is given.
  The rule of a path is the one that the last of them gives, and
  unless one of them gives a rule, paths are filled by the even
  and odd rule.

  Main declarations:
    * `givenRule`
    * `Stack.HoldsRule`
    * `OpenPath`
    * `Active.openPath`
-/

namespace FixedPage

open Markup

variable {α : Type}

------------------------------------------------------------
-- Kinds
------------------------------------------------------------

section

variable [Scalar α]
variable {env : Environment α} {lookup : BrushLookup α}

/- An element that starts keeps the kind of the frame it is in. -/
theorem startElement_kinds
    {frame frame' : Frame α}
    {e : Element}
    {child? : Option (Frame α)}
    {st st' : RenderState α}
    (hOk :
      (startElement env (pageBrush env) frame e).perform st =
        (.ok (frame', child?), st')) :
    frame'.kind = frame.kind ∧
      ∀ child, child? = some child → child.kind ∈ frame.kind.bears := by
  have hOutcome :=
    startElement_started env (pageBrush_sameDepth env) e frame st
  rw [hOk] at hOutcome
  have hStarted :
      frame.Started SameDepth env.options.maxVisualDepth st frame'
        child? st' := hOutcome
  cases hStarted with
  | steady hSame _ =>
      refine ⟨congrArg FrameOutline.kind hSame, ?_⟩
      rintro _ ⟨⟩
  | loaded _ hSame _ =>
      refine ⟨congrArg FrameOutline.kind hSame, ?_⟩
      rintro _ ⟨⟩
  | bare hSame hBears =>
      refine ⟨congrArg FrameOutline.kind hSame, ?_⟩
      rintro _ ⟨⟩
      exact hBears
  | drawing hSame hBears _ =>
      refine ⟨congrArg FrameOutline.kind hSame, ?_⟩
      rintro _ ⟨⟩
      exact hBears
  | visual v hKind _ =>
      refine ⟨rfl, ?_⟩
      rintro _ ⟨⟩
      rw [hKind]
      change FrameKind.visual ∈ FrameKind.brush.bears
      decide
  | resources hBears hOutline =>
      refine ⟨by simp only [Frame.kind, hOutline], ?_⟩
      rintro _ ⟨⟩
      exact hBears

/- The end of a child keeps the kind of a frame. -/
theorem Frame.endChild_kind
    (frame : Frame α)
    (env : Environment α)
    (name : String)
    (product : Product α)
    (st : RenderState α) :
    (frame.endChild env name product st).1.kind = frame.kind := by
  have hReceived :=
    frame.endChild_received (R := SameDepth) env name product st
  generalize frame.endChild env name product st = received
    at hReceived ⊢
  rcases received with ⟨frame', st'⟩
  cases hReceived with
  | steady hSame _ => exact congrArg FrameOutline.kind hSame
  | masked _ _ hMasked => simp only [Frame.kind, hMasked]
  | visual _ _ _ hSame => exact congrArg FrameOutline.kind hSame
  | ended _ hOutline => simp only [Frame.kind, hOutline]
  | stored _ hSame _ => exact congrArg FrameOutline.kind hSame

------------------------------------------------------------
-- Rules of paths
------------------------------------------------------------

omit [Scalar α] in
/- The rule that a geometry gives. -/
def geometryRule?
    (e : Element) : Option FillRule :=
  (PathFrame.lastValue? e "FillRule").map FillRule.ofName

/-
  The rule that the geometries of a path give, the latest one
  first.
-/
def givenRule
    (geometries : List Element) : FillRule :=
  (geometries.findSome? geometryRule?).getD .evenOdd

/- A geometry without a rule leaves that of those before it. -/
@[simp] theorem givenRule_cons
    (e : Element)
    (geometries : List Element) :
    givenRule (e :: geometries) =
      (geometryRule? e).getD (givenRule geometries) := by
  unfold givenRule
  rw [List.findSome?_cons]
  cases geometryRule? e <;> rfl

namespace PathFrame

/- The element is a geometry that the path is given. -/
def Takes
    (f : PathFrame α)
    (e : Element) : Prop :=
  e.name = "PathGeometry" ∧ f.inClip = false

instance
    (f : PathFrame α)
    (e : Element) : Decidable (f.Takes e) :=
  inferInstanceAs (Decidable (_ ∧ _))

/- The attributes of a geometry give its rule. -/
theorem takeGeometryAttributes_gives
    (e : Element)
    (attributes : List Attribute)
    (f : PathFrame α) :
    (attributes.foldlM (takeGeometryAttribute env e) f).Gives
      fun f' =>
        f'.state.fillRule =
          ((attributes.findRev? (·.name == "FillRule")).map
            fun a => FillRule.ofName a.value).getD
              f.state.fillRule := by
  induction attributes generalizing f with
  | nil => exact .pure rfl
  | cons a rest ih =>
      rw [List.foldlM_cons, List.findRev?]
      by_cases hName : a.name = "FillRule"
      · have hTake :
            takeGeometryAttribute env e f a =
              pure { f with
                state :=
                  { f.state with
                    fillRule := FillRule.ofName a.value } } := by
          simp only [takeGeometryAttribute, hName]
        rw [hTake, pure_bind]
        intro f' st st' hOk
        rw [ih _ f' st st' hOk, if_pos (by simpa using hName)]
        cases rest.findRev? (·.name == "FillRule") <;> rfl
      · have hTake :
            (takeGeometryAttribute env e f a).Gives fun f' =>
              f'.state.fillRule = f.state.fillRule := by
          unfold takeGeometryAttribute
          split
          · exact absurd ‹_› hName
          · exact
              .bind (.any _) fun _ _ => .bind (.any _) fun _ _ =>
                .pure rfl
          · exact .pure rfl
        refine .bind hTake fun f₁ hFirst => ?_
        intro f' st st' hOk
        rw [ih f₁ f' st st' hOk, hFirst,
          if_neg (by simpa using hName)]
        cases rest.findRev? (·.name == "FillRule") <;> rfl

/- What an element that starts inside a path makes of its rule. -/
inductive GivenBy
    (f : PathFrame α)
    (e : Element) : PathFrame α × Option (Frame α) → Prop
| data
    {f' : PathFrame α}
    (hTakes : f.Takes e)
    (hRule :
      f'.state.fillRule = (geometryRule? e).getD f.state.fillRule) :
    GivenBy f e (f', none)
| figures
    {f' : PathFrame α}
    {g : GeometryFrame α}
    (hTakes : f.Takes e)
    (hRule :
      g.state.fillRule = (geometryRule? e).getD f.state.fillRule)
    (hBlank : f'.state.fillRule = .evenOdd) :
    GivenBy f e (f', some (.geometry g))
| other
    {f' : PathFrame α}
    {child? : Option (Frame α)}
    (hOther : ¬ f.Takes e)
    (hRule : f'.state.fillRule = f.state.fillRule)
    (hKind :
      ∀ child, child? = some child → child.kind ≠ .geometry) :
    GivenBy f e (f', child?)

/- The attributes of a geometry give its path a rule. -/
theorem readGeometry_gives
    (f : PathFrame α)
    (e : Element) :
    Action.Gives
      (fun f' : PathFrame α =>
        f'.state.fillRule =
          (geometryRule? e).getD f.state.fillRule)
      (e.attributes.foldlM (takeGeometryAttribute env e) f) := by
  intro f' st st' hOk
  have hRule :=
    takeGeometryAttributes_gives e e.attributes f f' st st' hOk
  rw [hRule, geometryRule?, lastValue?, Option.map_map]
  rfl

/- A geometry gives its path a rule, however it is drawn. -/
theorem startGeometry_gives
    {f : PathFrame α}
    {e : Element}
    (hTakes : f.Takes e) :
    (f.startGeometry env e).Gives (f.GivenBy e) := by
  unfold startGeometry
  refine .bind (f.readGeometry_gives e) fun f' hGiven => ?_
  split
  · exact .pure (.data hTakes hGiven)
  · exact
      .bind (.any _) fun _ _ =>
        .bind (.any _) fun _ _ =>
          .pure (.figures hTakes hGiven rfl)

/- How the elements inside a path bear on its rule. -/
theorem startChild_gives
    (f : PathFrame α)
    (e : Element) :
    (f.startChild env e).Gives (f.GivenBy e) := by
  have hOther :
      ∀ {f' : PathFrame α} {child? : Option (Frame α)},
        e.name ≠ "PathGeometry" →
          f'.state.fillRule = f.state.fillRule →
            (∀ child, child? = some child →
              child.kind ≠ .geometry) →
              (pure (f', child?) : Action α _).Gives
                (f.GivenBy e) :=
    fun hName hRule hKind =>
      .pure (.other (fun hTakes => hName hTakes.1) hRule hKind)
  unfold startChild
  split
  · rename_i hName
    exact hOther (by simp [hName]) rfl (by simp)
  · rename_i hName
    exact hOther (by simp [hName]) rfl (by simp)
  · rename_i hName
    exact hOther (by simp [hName]) rfl (by simp)
  · rename_i hName
    exact hOther (by simp [hName]) rfl (by simp)
  · rename_i hName
    exact hOther (by simp [hName]) rfl (by simp)
  · rename_i hName
    split
    · rename_i hClip
      have hRule :
          (f.takeClip e).state.fillRule = f.state.fillRule := by
        unfold takeClip
        split <;> rfl
      have hOther : ¬ f.Takes e := by
        rintro ⟨-, hNone⟩
        rw [hClip] at hNone
        cases hNone
      exact .pure (.other hOther hRule (by simp))
    · rename_i hClip
      exact startGeometry_gives ⟨hName, by simpa using hClip⟩
  · rename_i hName
    exact hOther hName rfl (by simp)

/- No attribute of a path gives a rule. -/
theorem takeAttribute_gives
    (e : Element)
    (state : PathState α)
    (a : Attribute) :
    (state.takeAttribute env lookup e a).Gives fun state' =>
      state'.fillRule = state.fillRule := by
  unfold PathState.takeAttribute
  split
  · exact .bind (.any _) fun _ _ => .pure rfl
  · exact .bind (.any _) fun _ _ => .pure rfl
  · exact
      .bind (.any _) fun _ _ => .bind (.any _) fun _ _ => .pure rfl
  · exact .bind (.any _) fun _ _ => .pure rfl
  · exact .bind (.any _) fun _ _ => .pure rfl
  · exact .bind (.any _) fun _ _ => .pure rfl
  · exact .bind (.any _) fun _ _ => .pure rfl
  · split
    · exact .pure rfl
    · exact .bind (.any _) fun _ _ => .pure rfl

/- A path starts without a rule of its own. -/
theorem begin_gives
    (e : Element) :
    (PathFrame.begin env lookup e).Gives fun f =>
      f.state.fillRule = .evenOdd := by
  have hRead :
      (e.attributes.foldlM (PathState.takeAttribute env lookup e)
        .initial).Gives fun state => state.fillRule = .evenOdd := by
    have hStep :
        ∀ state a,
          state.fillRule = .evenOdd →
            (PathState.takeAttribute env lookup e state a).Gives
              fun state' => state'.fillRule = .evenOdd :=
      fun state a hRule state' st st' hOk =>
        (takeAttribute_gives e state a state' st st' hOk).trans hRule
    exact .foldlM hStep rfl e.attributes
  unfold PathFrame.begin
  refine .bind (.any _) fun _ _ => ?_
  refine .bind (.onError _ hRead) fun state hRule => ?_
  exact .bind (.any _) fun _ _ => .pure hRule

end PathFrame

/- A path sees the elements inside it. -/
theorem PathFrame.startElement_gives
    (f : PathFrame α)
    (e : Element) :
    (startElement env lookup (.path f) e).Gives fun (frame, child?) =>
      ∃ f', frame = .path f' ∧ f.GivenBy e (f', child?) :=
  .bind (f.startChild_gives e) fun (f', _) hGiven =>
    .pure ⟨f', rfl, hGiven⟩

namespace GeometryFrame

variable {g g' : GeometryFrame α} {e : Element}

/- A segment adds points to the figure under way, or nothing. -/
theorem figure_of_addSegment
    (hAdd : g.addSegment e = .ok g') :
    ∃ figure,
      g' = { g with figure := figure } ∧
        (figure = g.figure ∨
          ∃ points, g.figure.addPoints? e.name points = some figure) := by
  unfold addSegment at hAdd
  rcases Except.ok_of_bind hAdd with ⟨value, -, hAdd⟩
  rcases Except.ok_of_bind hAdd with ⟨points, -, hAdd⟩
  have hStroked :
      ∃ stroked,
        (if stroked = true then g.addPoints e value points
          else pure g) = .ok g' := by
    dsimp only at hAdd
    split at hAdd
    · rcases Except.ok_of_bind hAdd with ⟨stroked, -, hAdd⟩
      exact ⟨stroked, hAdd⟩
    · exact ⟨true, hAdd⟩
  rcases hStroked with ⟨_ | _, hAdd⟩
  · cases hAdd
    exact ⟨g.figure, rfl, .inl rfl⟩
  · rw [if_pos rfl, addPoints] at hAdd
    cases hFigure : g.figure.addPoints? e.name points with
    | none =>
        rw [hFigure] at hAdd
        cases hAdd
    | some figure =>
        rw [hFigure] at hAdd
        cases hAdd
        exact ⟨figure, rfl, .inr ⟨points, hFigure⟩⟩

omit [Scalar α] in
/- The path of a figure that has some flags. -/
def flagged
    (state : PathState α)
    (isClosed isFilled : Bool) : PathState α :=
  { state with isClosed := isClosed, isFilled := isFilled }

omit [Scalar α] in
/- The attributes of a figure set its flags and nothing else. -/
theorem flagged_of_foldlM
    {attributes : List Attribute}
    {state state' : PathState α}
    (hTake :
      attributes.foldlM (takeFigureAttribute e) state = .ok state') :
    ∃ isClosed isFilled, state' = flagged state isClosed isFilled := by
  induction attributes generalizing state with
  | nil =>
      cases hTake
      exact ⟨_, _, rfl⟩
  | cons a rest ih =>
      rw [List.foldlM_cons] at hTake
      rcases Except.ok_of_bind hTake with ⟨mid, hFirst, hRest⟩
      rcases ih hRest with ⟨isClosed, isFilled, rfl⟩
      refine ⟨isClosed, isFilled, ?_⟩
      unfold takeFigureAttribute at hFirst
      split at hFirst
      · rcases Except.ok_of_bind hFirst with ⟨flag, -, hFirst⟩
        cases hFirst
        rfl
      · rcases Except.ok_of_bind hFirst with ⟨flag, -, hFirst⟩
        cases hFirst
        rfl
      · cases hFirst
        rfl

/-
  Elements inside a geometry leave its path, the flags of a figure
  apart. None but a transformation has a frame of its own.
-/
theorem flagged_of_startChild
    {child? : Option (Frame α)}
    (hStart : g.startChild e = .ok (g', child?)) :
    (∃ isClosed isFilled, g'.state = flagged g.state isClosed isFilled) ∧
      (child? = none ∨ child? = some (.matrix .identity)) := by
  have hSegment :
      g.addSegment e = .ok g' →
        ∃ isClosed isFilled,
          g'.state = flagged g.state isClosed isFilled := by
    intro hAdd
    rcases figure_of_addSegment hAdd with ⟨figure, rfl, -⟩
    exact ⟨_, _, rfl⟩
  unfold startChild at hStart
  split at hStart
  · cases hStart
    exact ⟨⟨_, _, rfl⟩, .inr rfl⟩
  · rcases Except.ok_of_map_none hStart with ⟨hFigure, hNone⟩
    unfold startFigure at hFigure
    rcases Except.ok_of_bind hFigure with ⟨start, -, hFigure⟩
    rcases Except.ok_of_bind hFigure with ⟨state, hTake, hFigure⟩
    cases hFigure
    rcases flagged_of_foldlM hTake with ⟨isClosed, isFilled, rfl⟩
    exact ⟨⟨isClosed, isFilled, rfl⟩, .inl hNone⟩
  · rcases Except.ok_of_map_none hStart with ⟨hAdd, hNone⟩
    exact ⟨hSegment hAdd, .inl hNone⟩
  · rcases Except.ok_of_map_none hStart with ⟨hAdd, hNone⟩
    exact ⟨hSegment hAdd, .inl hNone⟩
  · rcases Except.ok_of_map_none hStart with ⟨hAdd, hNone⟩
    exact ⟨hSegment hAdd, .inl hNone⟩
  · cases hStart
    exact ⟨⟨_, _, rfl⟩, .inl rfl⟩

/- An element inside a geometry leaves the state as it was. -/
theorem of_startElement
    {frame : Frame α}
    {child? : Option (Frame α)}
    {st st' : RenderState α}
    (hStart :
      (startElement env lookup (.geometry g) e).perform st =
        (.ok (frame, child?), st')) :
    ∃ g',
      g.startChild e = .ok (g', child?) ∧ frame = .geometry g' ∧
        st' = st := by
  rw [startElement, Action.perform_bind, Action.perform_ofExcept]
    at hStart
  rcases hChild : g.startChild e with fault | ⟨g', child?'⟩
  · rw [hChild] at hStart
    cases hStart
  · rw [hChild] at hStart
    cases hStart
    exact ⟨g', rfl, rfl, rfl⟩

/- The end of an element inside a geometry leaves what is known. -/
theorem endChild_state
    (g : GeometryFrame α)
    (name : String)
    (product : Product α)
    (st : RenderState α) :
    (g.endChild name product st).1.state = g.state := by
  unfold endChild
  split <;> rfl

end GeometryFrame

------------------------------------------------------------
-- Ends
------------------------------------------------------------

omit [Scalar α] in
/- The product is not what is known of a path. -/
def Product.NoPath
    (product : Product α) : Prop :=
  ∀ state, product ≠ .path state

omit [Scalar α] in
theorem Product.noPath_none :
    (Product.none : Product α).NoPath := by
  intro state hIs
  cases hIs

/- Only a geometry hands over what is known of a path. -/
theorem Frame.finish_gives
    (frame : Frame α)
    (hKind : frame.kind ≠ .geometry) :
    (frame.finish env).Gives Product.NoPath := by
  have hNone :
      (pure .none : Action α (Product α)).Gives Product.NoPath :=
    .pure Product.noPath_none
  cases frame with
  | geometry g => exact absurd rfl hKind
  | content f =>
      intro product st st' hOk state hIs
      subst hIs
      have hFinish : Except.ok (f.finish st).1 = .ok (.path state) :=
        congrArg Prod.fst hOk
      unfold ContentFrame.finish at hFinish
      dsimp only at hFinish
      split at hFinish <;> cases hFinish
  | canvas f =>
      rw [finish]
      exact .bind (.any _) fun _ _ => hNone
  | path f =>
      rw [finish, PathFrame.finish]
      cases f.state.data? with
      | none => exact .bind (.any _) fun _ _ => hNone
      | some data =>
          exact
            .bind (.any _) fun _ _ => .bind (.any _) fun _ _ => hNone
  | glyphs f =>
      rw [finish, GlyphsFrame.finish]
      refine .bind (.any _) fun font _ => .bind (.any _) fun _ _ => ?_
      dsimp only
      split
      · exact .fail _
      · exact .bind (.any _) fun _ _ => hNone
  | resources remote => exact hNone
  | dictionary current? => exact hNone
  | brush pattern? => exact .pure fun state hIs => by cases hIs
  | gradient g => exact .pure fun state hIs => by cases hIs
  | image i => exact .pure fun state hIs => by cases hIs
  | matrix m => exact .pure fun state hIs => by cases hIs

namespace PathFrame

/- Brushes and matrices leave the rule of a path. -/
theorem endChild_fillRule
    (f : PathFrame α)
    (name : String)
    {product : Product α}
    (hProduct : product.NoPath)
    (st : RenderState α) :
    (f.endChild name product st).1.state.fillRule =
      f.state.fillRule := by
  unfold endChild
  split
  · rfl
  · rfl
  · split <;> rfl
  · rfl
  · exact absurd rfl (hProduct _)
  · rfl
  · rfl

/- A geometry that ends hands over what is known of its path. -/
theorem endChild_geometry
    (f : PathFrame α)
    (name : String)
    (state : PathState α)
    (st : RenderState α) :
    (f.endChild name (.path state) st).1.state =
      if name = "PathGeometry" then state else f.state := by
  unfold endChild
  split
  · rename_i hProduct
    cases hProduct
  · rename_i hProduct
    cases hProduct
  · rename_i hProduct
    cases hProduct
  · rename_i hProduct
    cases hProduct
  · rename_i hProduct
    cases hProduct
    exact (if_pos rfl).symm
  · exact (if_neg (by decide)).symm
  · rename_i hName
    exact (if_neg (hName state · rfl)).symm

end PathFrame

------------------------------------------------------------
-- Paths on the stack
------------------------------------------------------------

/-
  A path on a stack has a rule. While a geometry made of figures
  lies on the path, the geometry has the rule.
-/
inductive Stack.HoldsRule
    (rule : FillRule)
    (owner : Nat)
    (below : List (Entry α)) : List (Entry α) → Prop
| path
    {f : PathFrame α}
    (hRule : f.state.fillRule = rule) :
    HoldsRule rule owner below (⟨.path f, owner⟩ :: below)
| figures
    {f : PathFrame α}
    {g : GeometryFrame α}
    {inner : Nat}
    (hRule : g.state.fillRule = rule)
    (hBlank : f.state.fillRule = .evenOdd) :
    HoldsRule rule owner below
      (⟨.geometry g, inner⟩ :: ⟨.path f, owner⟩ :: below)
| child
    {f : PathFrame α}
    {frame : Frame α}
    {inner : Nat}
    (hKind : frame.kind ≠ .geometry)
    (hRule : f.state.fillRule = rule) :
    HoldsRule rule owner below
      (⟨frame, inner⟩ :: ⟨.path f, owner⟩ :: below)
| under
    {top next : Entry α}
    {entries : List (Entry α)}
    (hHolds : HoldsRule rule owner below (next :: entries))
    (hDeep : below.length < entries.length) :
    HoldsRule rule owner below (top :: next :: entries)

/-
  The geometries of a path that has `height` frames below it,
  after an event. A geometry whose end tag has another name is
  lost, and all that is known of its path with it.
-/
def Stack.givenAfter
    (height : Nat)
    (geometries : List Element)
    (place : Location)
    (stack : Stack α) : Event → List Element
| .startTag name attributes =>
    match stack.entries with
    | ⟨.path f, _⟩ :: below =>
        if below.length = height ∧ f.Takes ⟨place, name, attributes⟩
        then ⟨place, name, attributes⟩ :: geometries
        else geometries
    | _ => geometries
| .endTag name =>
    match stack.entries with
    | ⟨.geometry _, owner⟩ :: _ :: below =>
        if below.length = height ∧ owner = stack.depth
          ∧ name ≠ "PathGeometry"
        then []
        else geometries
    | _ => geometries
| .text _ => geometries

namespace Stack

variable {height depth owner : Nat} {geometries : List Element}
variable {place : Location} {name : String}
variable {attributes : List Attribute}
variable {top next : Entry α} {entries below : List (Entry α)}

omit [Scalar α] in
/- No geometry is given but to the path on top. -/
theorem givenAfter_startTag
    (hDeep : height < entries.length) :
    givenAfter height geometries place ⟨top :: entries, depth⟩
      (.startTag name attributes) = geometries := by
  rcases top with ⟨frame, inner⟩
  cases frame with
  | path f => exact if_neg fun hIs => by omega
  | _ => rfl

omit [Scalar α] in
/- No geometry is lost but the one just above the path. -/
theorem givenAfter_endTag
    (hDeep : height < entries.length) :
    givenAfter height geometries place ⟨top :: next :: entries, depth⟩
      (.endTag name) = geometries := by
  rcases top with ⟨frame, inner⟩
  cases frame with
  | geometry g => exact if_neg fun hIs => by omega
  | _ => rfl

omit [Scalar α] in
/- Only the end of a geometry can lose it. -/
theorem givenAfter_endTag_of_kind
    {frame : Frame α}
    (hKind : frame.kind ≠ .geometry) :
    givenAfter height geometries place
      ⟨⟨frame, owner⟩ :: entries, depth⟩ (.endTag name) =
      geometries := by
  cases frame with
  | geometry g => exact absurd rfl hKind
  | _ => rfl

end Stack

namespace Stack.HoldsRule

variable {owner : Nat} {below : List (Entry α)}
variable {geometries : List Element} {place : Location}
variable {stack stack' : Stack α} {event : Event}
variable {product? : Option (Product α)} {st st' : RenderState α}

omit [Scalar α] in
/- A path on top has the rule itself. -/
theorem path_rule
    {rule : FillRule}
    {inner : Nat}
    {f : PathFrame α}
    (hHolds :
      HoldsRule rule owner below (⟨.path f, inner⟩ :: below)) :
    f.state.fillRule = rule := by
  generalize hEntries : (⟨.path f, inner⟩ : Entry α) :: below = entries
    at hHolds
  cases hHolds with
  | path hRule =>
      cases hEntries
      exact hRule
  | figures => cases hEntries
  | child =>
      have hLength := congrArg List.length hEntries
      simp at hLength
  | under _ hDeep =>
      have hLength := congrArg List.length hEntries
      simp only [List.length_cons] at hLength
      omega

/- The end of a child changes the rule of no path further down. -/
theorem endChild
    {rule : FillRule}
    {inner : Nat}
    {frame : Frame α}
    {entries : List (Entry α)}
    (hHolds : HoldsRule rule owner below (⟨frame, inner⟩ :: entries))
    (hDeep : below.length < entries.length)
    (name : String)
    (product : Product α)
    (st : RenderState α) :
    HoldsRule rule owner below
      (⟨(frame.endChild env name product st).1, inner⟩ :: entries) := by
  cases hHolds with
  | path hRule => exact absurd hDeep (Nat.lt_irrefl _)
  | @figures f g inner hRule hBlank =>
      exact
        .figures
          ((congrArg PathState.fillRule
            (g.endChild_state name product st)).trans hRule)
          hBlank
  | child hKind hRule =>
      exact
        .child (by rwa [frame.endChild_kind env name product st]) hRule
  | under hHolds hLength => exact .under hHolds hLength

/- An element that starts gives the path on top its geometries. -/
theorem startElement
    {top frame : Frame α}
    {child? : Option (Frame α)}
    {inner depth : Nat}
    {entries : List (Entry α)}
    {name : String}
    {attributes : List Attribute}
    (hHolds :
      HoldsRule (givenRule geometries) owner below
        (⟨top, inner⟩ :: entries))
    (hStart :
      (FixedPage.startElement env (pageBrush env) top
        ⟨place, name, attributes⟩).perform st =
          (.ok (frame, child?), st')) :
    HoldsRule
      (givenRule
        (givenAfter below.length geometries place
          ⟨⟨top, inner⟩ :: entries, depth⟩ (.startTag name attributes)))
      owner below
      ((child?.map fun child => (⟨child, depth + 1⟩ : Entry α)).toList
        ++ ⟨frame, inner⟩ :: entries) := by
  have hPush :
      ∀ {rule : FillRule},
        HoldsRule rule owner below (⟨frame, inner⟩ :: entries) →
          below.length < entries.length →
            HoldsRule rule owner below
              ((child?.map fun child =>
                (⟨child, depth + 1⟩ : Entry α)).toList
                ++ ⟨frame, inner⟩ :: entries) := by
    intro rule hHolds hDeep
    cases child? with
    | none => exact hHolds
    | some child => exact .under hHolds hDeep
  cases hHolds with
  | @path f hRule =>
      rcases f.startElement_gives _ _ st st' hStart with
        ⟨f', rfl, hGiven⟩
      cases hGiven with
      | data hTakes hRule' =>
          rw [givenAfter]
          dsimp only
          rw [if_pos ⟨rfl, hTakes⟩, givenRule_cons, ← hRule, ← hRule']
          exact .path rfl
      | figures hTakes hRule' hBlank =>
          rw [givenAfter]
          dsimp only
          rw [if_pos ⟨rfl, hTakes⟩, givenRule_cons, ← hRule, ← hRule']
          exact .figures rfl hBlank
      | other hOther hRule' hKind =>
          rw [givenAfter]
          dsimp only
          rw [if_neg fun hIs => hOther hIs.2]
          cases child? with
          | none => exact .path (hRule'.trans hRule)
          | some child =>
              exact .child (hKind child rfl) (hRule'.trans hRule)
  | @figures f g inner hRule hBlank =>
      have hDeep : below.length < (⟨.path f, owner⟩ :: below).length :=
        Nat.lt_succ_self _
      rcases GeometryFrame.of_startElement hStart with
        ⟨g', hChild, rfl, -⟩
      have hRule' : g'.state.fillRule = g.state.fillRule := by
        rcases (GeometryFrame.flagged_of_startChild hChild).1 with
          ⟨_, _, hState⟩
        rw [hState]
        rfl
      rw [givenAfter_startTag hDeep]
      exact hPush (.figures (hRule'.trans hRule) hBlank) hDeep
  | @child f _ _ hKind hRule =>
      have hDeep : below.length < (⟨.path f, owner⟩ :: below).length :=
        Nat.lt_succ_self _
      rw [givenAfter_startTag hDeep]
      refine hPush (.child ?_ hRule) hDeep
      rw [(startElement_kinds hStart).1]
      exact hKind
  | @under _ next entries hHolds hDeep =>
      have hDeeper : below.length < (next :: entries).length :=
        Nat.lt_succ_of_lt hDeep
      rw [givenAfter_startTag hDeeper]
      exact hPush (.under hHolds hDeep) hDeeper

/-
  An event that a stack takes ends a path or leaves it with the
  rule of its geometries.
-/
theorem takes
    (hHolds :
      HoldsRule (givenRule geometries) owner below stack.entries)
    (hTakes :
      Takes env (FixedPage.startElement env (pageBrush env)) place
        stack st event product? stack' st') :
    stack'.entries.length ≤ below.length ∨
      HoldsRule
        (givenRule
          (stack.givenAfter below.length geometries place event))
        owner below stack'.entries := by
  cases hTakes with
  | text => exact .inr hHolds
  | seen hStart => exact .inr (hHolds.startElement hStart)
  | owned hStart => exact .inr (hHolds.startElement hStart)
  | @inside top inner depth entries name _ hOwner =>
      right
      cases hHolds with
      | @path f hRule =>
          exact .path
            ((f.endChild_fillRule name Product.noPath_none st).trans
              hRule)
      | @figures f g _ hRule hBlank =>
          have hSame :
              givenAfter below.length geometries place
                ⟨⟨.geometry g, inner⟩ :: ⟨.path f, owner⟩ :: below,
                  depth⟩ (.endTag name) = geometries :=
            if_neg fun hIs => hOwner hIs.2.1
          rw [hSame]
          exact
            .figures
              ((congrArg PathState.fillRule
                (g.endChild_state name .none st)).trans hRule)
              hBlank
      | child hKind hRule =>
          rw [givenAfter_endTag_of_kind hKind]
          refine .child ?_ hRule
          rwa [top.endChild_kind env name .none st]
      | under hHolds hDeep =>
          rw [givenAfter_endTag hDeep]
          exact .under hHolds hDeep
  | @finished top parent parentOwner depth entries name product _ done hDone =>
      cases hHolds with
      | path hRule => exact .inl (Nat.le_refl _)
      | @figures f g _ hRule hBlank =>
          right
          cases hDone
          have hState := f.endChild_geometry name g.state st
          by_cases hName : name = "PathGeometry"
          · rw [if_pos hName] at hState
            have hSame :
                givenAfter below.length geometries place
                  ⟨⟨.geometry g, depth⟩ :: ⟨.path f, owner⟩ :: below,
                    depth⟩ (.endTag name) = geometries :=
              if_neg fun hIs => hIs.2.2 hName
            rw [hSame]
            exact
              .path ((congrArg PathState.fillRule hState).trans hRule)
          · rw [if_neg hName] at hState
            have hLost :
                givenAfter below.length geometries place
                  ⟨⟨.geometry g, depth⟩ :: ⟨.path f, owner⟩ :: below,
                    depth⟩ (.endTag name) = [] :=
              if_pos ⟨rfl, rfl, hName⟩
            rw [hLost]
            exact
              .path ((congrArg PathState.fillRule hState).trans hBlank)
      | @child f _ _ hKind hRule =>
          right
          rw [givenAfter_endTag_of_kind hKind]
          have hProduct := top.finish_gives hKind product st done hDone
          exact
            .path ((f.endChild_fillRule name hProduct done).trans hRule)
      | under hHolds hDeep =>
          rw [givenAfter_endTag hDeep]
          exact .inr (hHolds.endChild hDeep name product done)
  | left hDone => exact .inl (Nat.zero_le _)

end Stack.HoldsRule

------------------------------------------------------------
-- Starts
------------------------------------------------------------

omit [Scalar α] in
/- What starts is a path without a rule, if it is a path. -/
def BlankPath
    (e : Element)
    (child? : Option (Frame α)) : Prop :=
  ∀ f, child? = some (.path f) →
    e.name = "Path" ∧ f.state.fillRule = .evenOdd

omit [Scalar α] in
theorem BlankPath.of_ne
    {e : Element}
    {child? : Option (Frame α)}
    (hChild : ∀ f, child? ≠ some (.path f)) :
    BlankPath e child? :=
  fun f hIs => absurd hIs (hChild f)

/- A path among the elements of content starts without a rule. -/
theorem startContent_gives
    (e : Element) :
    (startContent env lookup e).Gives (BlankPath e) := by
  unfold startContent
  split
  · exact .bind (.any _) fun _ _ => .pure (.of_ne (by simp))
  · rename_i hName
    refine .bind (PathFrame.begin_gives e) fun f hRule => .pure ?_
    rintro _ ⟨⟩
    exact ⟨hName, hRule⟩
  · exact .bind (.any _) fun _ _ => .pure (.of_ne (by simp))
  · split
    · exact .fail _
    · exact .pure (.of_ne (by simp))

/-
  What holds of the elements of content that start, and of every
  frame that does not draw, holds of whatever starts.
-/
theorem startElement_gives
    {P : Option (Frame α) → Prop}
    {e : Element}
    (hContent : (startContent env (pageBrush env) e).Gives P)
    (hOther :
      ∀ child?,
        (∀ child, child? = some child → child.kind.draws = false) →
          P child?)
    (top : Frame α) :
    (startElement env (pageBrush env) top e).Gives fun started =>
      P started.2 := by
  have hNone : P none := hOther none (by simp)
  have hResources : (openResources : Action α _).Gives fun child =>
      P (some child) :=
    .bind (.any _) fun _ _ => .pure (hOther _ (by simp [FrameKind.draws]))
  cases top with
  | content c =>
      have hPlain :
          (startContent env (pageBrush env) e >>= fun child? =>
            pure (c, child?)).Gives fun started => P started.2 :=
        .bind hContent fun _ hGiven => .pure hGiven
      have hChild :
          (c.startChild env (pageBrush env) e).Gives
            fun started => P started.2 := by
        unfold ContentFrame.startChild
        dsimp only
        split
        · exact .pure hNone
        · exact .bind hResources fun _ hGiven => .pure hGiven
        · split
          · exact .pure hNone
          · exact hPlain
        · split
          · exact .pure (hOther _ (by simp [FrameKind.draws]))
          · exact hPlain
        · exact hPlain
      exact .bind hChild fun _ hGiven => .pure hGiven
  | canvas c =>
      have hChild :
          (c.startChild env (pageBrush env) e).Gives
            fun started => P started.2 := by
        unfold CanvasFrame.startChild
        split
        · exact .pure (hOther _ (by simp [FrameKind.draws]))
        · exact .pure (hOther _ (by simp [FrameKind.draws]))
        · exact .bind hResources fun _ hGiven => .pure hGiven
        · exact .bind hContent fun _ hGiven => .pure hGiven
      exact .bind hChild fun _ hGiven => .pure hGiven
  | _ =>
      rintro ⟨frame, child?⟩ st st' hOk
      apply hOther
      rintro child rfl
      have hBears := (startElement_kinds hOk).2 child rfl
      revert hBears
      simp only [Frame.kind_path, Frame.kind_geometry,
        Frame.kind_brush, Frame.kind_gradient, Frame.kind_image,
        Frame.kind_glyphs, Frame.kind_matrix, Frame.kind_resources,
        Frame.kind_dictionary]
      cases child.kind <;> decide

/- A path starts without a rule wherever it starts. -/
theorem startElement_path
    {top frame : Frame α}
    {e : Element}
    {f : PathFrame α}
    {st st' : RenderState α}
    (hStart :
      (startElement env (pageBrush env) top e).perform st =
        (.ok (frame, some (.path f)), st')) :
    e.name = "Path" ∧ f.state.fillRule = .evenOdd := by
  have hBlank :
      (startElement env (pageBrush env) top e).Gives
        fun started => BlankPath e started.2 := by
    refine startElement_gives (startContent_gives e) ?_ top
    rintro child? hDraws f rfl
    cases hDraws _ rfl
  exact hBlank _ st st' hStart f rfl

------------------------------------------------------------
-- Open paths
------------------------------------------------------------

/- A path lies somewhere on the stack. -/
def Stack.HasPath
    (owner : Nat)
    (below : List (Entry α))
    (stack : Stack α) : Prop :=
  ∃ above f, stack.entries = above ++ ⟨.path f, owner⟩ :: below

/-
  A path on the stack after an event was there before, or else
  its element has just started.
-/
theorem Stack.HasPath.before
    {owner : Nat}
    {below : List (Entry α)}
    {stack stack' : Stack α}
    {place : Location}
    {event : Event}
    {product? : Option (Product α)}
    {st st' : RenderState α}
    (hHas : stack'.HasPath owner below)
    (hTakes :
      Takes env (FixedPage.startElement env (pageBrush env)) place
        stack st event product? stack' st') :
    stack.HasPath owner below ∨
      ∃ attributes f depth,
        event = .startTag "Path" attributes ∧
          stack.entries.length = below.length ∧
          stack' = ⟨⟨.path f, owner⟩ :: below, depth⟩ ∧
          f.state.fillRule = .evenOdd := by
  rcases hHas with ⟨above, f, hEntries⟩
  cases hTakes with
  | text => exact .inl ⟨above, f, hEntries⟩
  | @seen top frame inner depth rest _ _ _ _ hStart =>
      left
      cases above with
      | nil =>
          cases hEntries
          rcases Frame.eq_path_of_kind (startElement_kinds hStart).1.symm
            with ⟨f₀, rfl⟩
          exact ⟨[], f₀, rfl⟩
      | cons _ above =>
          cases hEntries
          exact ⟨⟨top, inner⟩ :: above, f, rfl⟩
  | @owned top frame child inner depth rest _ attributes _ _ hStart =>
      rcases above with _ | ⟨first, _ | ⟨second, above⟩⟩
      · cases hEntries
        rcases startElement_path hStart with ⟨hName, hRule⟩
        cases hName
        exact .inr ⟨attributes, f, _, rfl, rfl, rfl, hRule⟩
      · cases hEntries
        rcases Frame.eq_path_of_kind (startElement_kinds hStart).1.symm
          with ⟨f₀, rfl⟩
        exact .inl ⟨[], f₀, rfl⟩
      · cases hEntries
        exact .inl ⟨⟨top, inner⟩ :: above, f, rfl⟩
  | @inside top inner depth rest name _ hOwner =>
      left
      have hKind := top.endChild_kind env name .none st
      generalize top.endChild env name .none st = received
        at hEntries hKind
      rcases received with ⟨frame, now⟩
      cases above with
      | nil =>
          cases hEntries
          rcases Frame.eq_path_of_kind hKind.symm with ⟨f₀, rfl⟩
          exact ⟨[], f₀, rfl⟩
      | cons _ above =>
          cases hEntries
          exact ⟨⟨top, inner⟩ :: above, f, rfl⟩
  | @finished top parent inner depth rest name product _ done hDone =>
      left
      have hKind := parent.endChild_kind env name product done
      generalize parent.endChild env name product done = received
        at hEntries hKind
      rcases received with ⟨frame, now⟩
      cases above with
      | nil =>
          cases hEntries
          rcases Frame.eq_path_of_kind hKind.symm with ⟨f₀, rfl⟩
          exact ⟨[⟨top, depth⟩], f₀, rfl⟩
      | cons _ above =>
          cases hEntries
          exact ⟨⟨top, depth⟩ :: ⟨parent, inner⟩ :: above, f, rfl⟩
  | left hDone => simp at hEntries

/-
  A run under way has a path on its stack, which has been given
  some geometries since its element started, the latest first.
-/
inductive OpenPath
    (env : Environment α)
    (first : Run α)
    (st₀ : RenderState α)
    (outer : List (Run α))
    (owner : Nat)
    (below : List (Entry α)) :
    List Element → Run α → RenderState α → Prop
| start
    {f : PathFrame α}
    {depth : Nat}
    {stack : Stack α}
    {place : Location}
    {attributes : List Attribute}
    {rest : List Item}
    {product? : Option (Product α)}
    {st st' : RenderState α}
    (hActive :
      Active env first st₀
        (⟨.page, stack,
          some (.ok (place, .startTag "Path" attributes) :: rest)⟩
            :: outer) st)
    (hFed :
      stack.feed env (startElement env (pageBrush env)) place st
        (.startTag "Path" attributes) =
          ⟨.ok product?, ⟨⟨.path f, owner⟩ :: below, depth⟩, st'⟩)
    (hNew : stack.entries.length = below.length)
    (hBlank : f.state.fillRule = .evenOdd) :
    OpenPath env first st₀ outer owner below []
      ⟨.page, ⟨⟨.path f, owner⟩ :: below, depth⟩, some rest⟩ st'
| step
    {geometries : List Element}
    {stack stack' : Stack α}
    {place : Location}
    {event : Event}
    {rest : List Item}
    {product? : Option (Product α)}
    {st st' : RenderState α}
    (hOpen :
      OpenPath env first st₀ outer owner below geometries
        ⟨.page, stack, some (.ok (place, event) :: rest)⟩ st)
    (hFed :
      stack.feed env (startElement env (pageBrush env)) place st
        event = ⟨.ok product?, stack', st'⟩)
    (hHeight : below.length < stack'.entries.length) :
    OpenPath env first st₀ outer owner below
      (stack.givenAfter below.length geometries place event)
      ⟨.page, stack', some rest⟩ st'

section

variable {first : Run α} {st₀ : RenderState α}
variable {outer : List (Run α)} {owner : Nat}
variable {below : List (Entry α)}

/-
  An open path has the rule of its geometries. By induction on
  the events that have been taken.
-/
theorem OpenPath.holdsRule
    {geometries : List Element}
    {run : Run α}
    {st : RenderState α}
    (hOpen :
      OpenPath env first st₀ outer owner below geometries run st) :
    Stack.HoldsRule (givenRule geometries) owner below
      run.stack.entries := by
  induction hOpen with
  | start _ _ _ hBlank => exact .path hBlank
  | step _ hFed hHeight ih =>
      rcases ih.takes (Stack.takes_of_feed hFed) with hGone | hHolds
      · exact absurd hHeight (Nat.not_lt_of_le hGone)
      · exact hHolds

omit [Scalar α] in
/- A page starts without a path. -/
theorem Run.ofPage_no_path
    (items : List Item)
    (owner : Nat)
    (below : List (Entry α)) :
    ¬ (Run.ofPage items).stack.HasPath owner below := by
  rintro ⟨_ | ⟨_, above⟩, f, hEntries⟩
  · cases hEntries
  · simp [Run.ofPage, Stack.ofPart] at hEntries

/-
  Whenever a path is on the stack of a run under way, it is open
  there: only the start of its element can have put it there.
-/
theorem Active.openPath
    {stack : Stack α}
    {items : List Item}
    {st : RenderState α}
    (hNone :
      ∀ (owner : Nat) (below : List (Entry α)),
        ¬ first.stack.HasPath owner below)
    (hActive :
      Active env first st₀ (⟨.page, stack, some items⟩ :: outer) st)
    (hHas : stack.HasPath owner below) :
    ∃ geometries,
      OpenPath env first st₀ outer owner below geometries
        ⟨.page, stack, some items⟩ st := by
  refine
    hActive.page_induction
      (Q := fun outer stack items st =>
        stack.HasPath owner below →
          ∃ geometries,
            OpenPath env first st₀ outer owner below geometries
              ⟨.page, stack, some items⟩ st)
      ?first ?brush ?step hHas
  case first =>
    intro stack items hIs hHas
    rw [hIs] at hNone
    exact absurd hHas (hNone owner below)
  case brush =>
    rintro outer items st ⟨_ | ⟨_, above⟩, f, hEntries⟩
    · cases hEntries
    · simp [Stack.ofOpenElement] at hEntries
  case step =>
    intro stack stack' place event rest product? outer st st' hRun hFed
      hOpen hHas
    rcases hHas.before (Stack.takes_of_feed hFed) with
      hBefore | ⟨attributes, f, depth, rfl, hNew, rfl, hBlank⟩
    · rcases hOpen hBefore with ⟨geometries, hOpen⟩
      refine ⟨_, .step hOpen hFed ?_⟩
      rcases hHas with ⟨above, f, hEntries⟩
      rw [hEntries, List.length_append, List.length_cons]
      omega
    · exact ⟨[], .start hRun hFed hNew hBlank⟩

end

end

end FixedPage
