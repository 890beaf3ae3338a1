import FixedPage.Proofs.Render.Drawn
import FixedPage.Proofs.Render.Geometries
import FixedPage.Proofs.Surface.FillRule

/-
  This file follows a geometry that is made of figures, from the
  start of its element until one of its figures ends. Meanwhile
  it stays on the stack, at most under a matrix, and whatever is
  drawn leaves the fill rules as they were when the clip of its
  path was in place.

  Main declarations:
    * `Stack.OnGeometry`
    * `GeometryLasts`
    * `GeometryLasts.leavesRules`
    * `OpenFigures`
    * `Active.openFigures`
-/

namespace FixedPage

open Markup

variable {α : Type}

------------------------------------------------------------
-- Geometries on the stack
------------------------------------------------------------

/- A geometry is on top of the stack or just below a matrix. -/
inductive Stack.OnGeometry
    (g : GeometryFrame α)
    (owner : Nat)
    (below : List (Entry α)) : Stack α → Prop
| top
    {depth : Nat} :
    OnGeometry g owner below ⟨⟨.geometry g, owner⟩ :: below, depth⟩
| turned
    {m : Matrix α}
    {inner depth : Nat} :
    OnGeometry g owner below
      ⟨⟨.matrix m, inner⟩ :: ⟨.geometry g, owner⟩ :: below, depth⟩

/- There are more frames than below the geometry. -/
theorem Stack.OnGeometry.length_lt
    {g : GeometryFrame α}
    {owner : Nat}
    {below : List (Entry α)}
    {stack : Stack α}
    (hOn : stack.OnGeometry g owner below) :
    below.length < stack.entries.length := by
  cases hOn <;> simp only [List.length_cons] <;> omega

/- There is one geometry at a place on the stack. -/
theorem Stack.OnGeometry.unique
    {g g' : GeometryFrame α}
    {owner : Nat}
    {below : List (Entry α)}
    {stack : Stack α}
    (hOn : stack.OnGeometry g owner below)
    (hOn' : stack.OnGeometry g' owner below) :
    g = g' := by
  cases hOn <;> cases hOn' <;> rfl

/- A figure ends inside a geometry on the stack. -/
theorem Stack.EndsFigure.onGeometry
    {g : GeometryFrame α}
    {stack : Stack α}
    (hEnds : stack.EndsFigure g) :
    ∃ owner below, stack.OnGeometry g owner below := by
  cases hEnds with
  | inside => exact ⟨_, _, .top⟩
  | after => exact ⟨_, _, .turned⟩

section

variable [Scalar α]
variable {env : Environment α} {lookup : BrushLookup α}

------------------------------------------------------------
-- Figures
------------------------------------------------------------

namespace PathBuilder

variable {b b' : PathBuilder α} {points : List (Point α)}

omit [Scalar α] in
/- Lines set no rule. -/
theorem fillRule?_addLines :
    (b.addLines points).fillRule? = b.fillRule? := by
  induction points generalizing b with
  | nil => rfl
  | cons p rest ih => exact ih

omit [Scalar α] in
/- Cubic curves set no rule. -/
theorem fillRule?_addCubics?
    (hAdd : b.addCubics? points = some b') :
    b'.fillRule? = b.fillRule? := by
  fun_induction addCubics? b points with
  | case1 b =>
      cases hAdd
      rfl
  | case2 b p₁ p₂ p₃ rest ih => exact ih hAdd
  | case3 => cases hAdd

/- Quadratic curves set no rule. -/
theorem fillRule?_addQuadratics?
    (hAdd : b.addQuadratics? points = some b') :
    b'.fillRule? = b.fillRule? := by
  fun_induction addQuadratics? b points with
  | case1 b =>
      cases hAdd
      rfl
  | case2 b q p rest ih => exact ih hAdd
  | case3 => cases hAdd

/- Points that are added to a path set no rule. -/
theorem fillRule?_addPoints?
    {element : String}
    (hAdd : b.addPoints? element points = some b') :
    b'.fillRule? = b.fillRule? := by
  unfold addPoints? at hAdd
  split at hAdd
  · exact fillRule?_addCubics? hAdd
  · exact fillRule?_addQuadratics? hAdd
  · cases hAdd
    exact fillRule?_addLines

end PathBuilder

namespace GeometryFrame

variable {g g' : GeometryFrame α} {child? : Option (Frame α)}

/- A segment sets no rule. -/
theorem addSegment_fillRule?
    {e : Element}
    (hAdd : g.addSegment e = .ok g')
    (hRule : g.figure.fillRule? = none) :
    g'.figure.fillRule? = none := by
  rcases figure_of_addSegment hAdd with
    ⟨figure, rfl, rfl | ⟨points, hPoints⟩⟩
  · exact hRule
  · exact (PathBuilder.fillRule?_addPoints? hPoints).trans hRule

/- An element inside a geometry sets no rule. -/
theorem startChild_fillRule?
    {e : Element}
    (hStart : g.startChild e = .ok (g', child?))
    (hRule : g.figure.fillRule? = none) :
    g'.figure.fillRule? = none := by
  unfold startChild at hStart
  split at hStart
  · cases hStart
    exact hRule
  · have hFigure := (Except.ok_of_map_none hStart).1
    rcases Except.ok_of_bind hFigure with ⟨start, -, hFigure⟩
    rcases Except.ok_of_bind hFigure with ⟨state, -, hFigure⟩
    cases hFigure
    rfl
  · exact addSegment_fillRule? (Except.ok_of_map_none hStart).1 hRule
  · exact addSegment_fillRule? (Except.ok_of_map_none hStart).1 hRule
  · exact addSegment_fillRule? (Except.ok_of_map_none hStart).1 hRule
  · cases hStart
    exact hRule

/- A figure that is drawn is painted under the rule in effect. -/
theorem endFigure_paintsUnder
    (g : GeometryFrame α)
    (hRule : g.figure.fillRule? = none)
    (s : Surface α) :
    ∃ ops,
      (g.endFigure s).2.written = s.written ++ ops ∧
        PaintsUnder none ops := by
  have hPaint :=
    paintPath_paintsUnder
      (if g.state.isClosed then g.figure.push .close else g.figure)
      g.state g.state.isFilled s
  have hFigure :
      (if g.state.isClosed then g.figure.push .close
        else g.figure).fillRule? = none := by
    split <;> exact hRule
  rwa [hFigure] at hPaint

/- The end of a child leaves the rules and sets none. -/
theorem endChild_leavesRules
    (g : GeometryFrame α)
    (name : String)
    (product : Product α)
    (st : RenderState α)
    (hRule : g.figure.fillRule? = none) :
    (g.endChild name product st).1.figure.fillRule? = none ∧
      ∃ ops,
        (g.endChild name product st).2.surface.written =
            st.surface.written ++ ops ∧
          LeavesRules ops := by
  unfold endChild
  split
  · exact ⟨hRule, _, Surface.written_transform _ _, fun _ => rfl⟩
  · rcases g.endFigure_paintsUnder hRule st.surface with
      ⟨ops, hWritten, hPaints⟩
    exact ⟨rfl, ops, hWritten, hPaints.leaves rfl⟩
  · exact ⟨hRule, [], (List.append_nil _).symm, fun _ => rfl⟩

end GeometryFrame

------------------------------------------------------------
-- Events
------------------------------------------------------------

/- An element inside a matrix leaves the state as it was. -/
theorem of_startMatrix
    {m : Matrix α}
    {e : Element}
    {frame : Frame α}
    {child? : Option (Frame α)}
    {st st' : RenderState α}
    (hStart :
      (startElement env lookup (.matrix m) e).perform st =
        (.ok (frame, child?), st')) :
    ∃ m', frame = .matrix m' ∧ child? = none ∧ st' = st := by
  rw [startElement, startStored, Action.perform_bind,
    Action.perform_ofExcept] at hStart
  cases hMatrix : startMatrix e m with
  | error fault =>
      rw [hMatrix] at hStart
      cases hStart
  | ok m' =>
      rw [hMatrix] at hStart
      cases hStart
      exact ⟨m', rfl, rfl, rfl⟩

/-
  An event after which the same geometry is on the stack leaves
  the rules, and the figure under way sets none.
-/
theorem Stack.OnGeometry.feed
    {g g' : GeometryFrame α}
    {owner : Nat}
    {below : List (Entry α)}
    {stack stack' : Stack α}
    {place : Location}
    {event : Event}
    {product? : Option (Product α)}
    {st st' : RenderState α}
    (hOn : stack.OnGeometry g owner below)
    (hRule : g.figure.fillRule? = none)
    (hFed :
      stack.feed env (FixedPage.startElement env lookup) place st event =
        ⟨.ok product?, stack', st'⟩)
    (hOn' : stack'.OnGeometry g' owner below) :
    g'.figure.fillRule? = none ∧
      ∃ ops,
        st'.surface.written = st.surface.written ++ ops ∧
          LeavesRules ops := by
  have hNothing :
      ∃ ops,
        st.surface.written = st.surface.written ++ ops ∧
          LeavesRules ops :=
    ⟨[], (List.append_nil _).symm, fun _ => rfl⟩
  cases Stack.takes_of_feed hFed with
  | text => cases hOn <;> cases hOn' <;> exact ⟨hRule, hNothing⟩
  | seen hStart =>
      cases hOn with
      | top =>
          rcases GeometryFrame.of_startElement hStart with
            ⟨g₁, hChild, rfl, rfl⟩
          cases hOn'
          exact ⟨g.startChild_fillRule? hChild hRule, hNothing⟩
      | turned =>
          rcases of_startMatrix hStart with ⟨m', rfl, -, rfl⟩
          cases hOn'
          exact ⟨hRule, hNothing⟩
  | owned hStart =>
      cases hOn with
      | top =>
          rcases GeometryFrame.of_startElement hStart with
            ⟨g₁, hChild, rfl, rfl⟩
          cases hOn'
          exact ⟨g.startChild_fillRule? hChild hRule, hNothing⟩
      | turned =>
          rcases of_startMatrix hStart with ⟨m', -, hNone, -⟩
          cases hNone
  | @inside top _ _ _ name _ hOwner =>
      cases hOn with
      | top =>
          cases hOn'
          exact g.endChild_leavesRules name .none st hRule
      | turned =>
          cases hOn'
          exact ⟨hRule, hNothing⟩
  | @finished _ _ _ _ _ name _ _ done hDone =>
      cases hOn with
      | top => exact absurd hOn'.length_lt (Nat.lt_irrefl _)
      | @turned m =>
          cases hDone
          cases hOn'
          exact g.endChild_leavesRules name (.matrix m) st hRule
  | left hDone => cases hOn'

/-
  A run takes events while a geometry stays on its stack, from
  the moment given by a run and a state on.
-/
inductive GeometryLasts
    (env : Environment α)
    (owner : Nat)
    (below : List (Entry α))
    (start : Run α)
    (st₀ : RenderState α) : Run α → RenderState α → Prop
| refl :
    GeometryLasts env owner below start st₀ start st₀
| step
    {stack stack' : Stack α}
    {place : Location}
    {event : Event}
    {rest : List Item}
    {product? : Option (Product α)}
    {g : GeometryFrame α}
    {st st' : RenderState α}
    (hLasts :
      GeometryLasts env owner below start st₀
        ⟨.page, stack, some (.ok (place, event) :: rest)⟩ st)
    (hFed :
      stack.feed env (startElement env (pageBrush env)) place st
        event = ⟨.ok product?, stack', st'⟩)
    (hOn : stack'.OnGeometry g owner below) :
    GeometryLasts env owner below start st₀
      ⟨.page, stack', some rest⟩ st'

/-
  While a geometry stays on the stack the rules are left as they
  are, whatever is drawn. By induction on the events taken.
-/
theorem GeometryLasts.leavesRules
    {owner : Nat}
    {below : List (Entry α)}
    {start run : Run α}
    {st₀ st : RenderState α}
    {g₀ : GeometryFrame α}
    (hOn : start.stack.OnGeometry g₀ owner below)
    (hRule : g₀.figure.fillRule? = none)
    (hLasts : GeometryLasts env owner below start st₀ run st) :
    ∃ g,
      run.stack.OnGeometry g owner below ∧
        g.figure.fillRule? = none ∧
        ∃ ops,
          st.surface.written = st₀.surface.written ++ ops ∧
            LeavesRules ops := by
  induction hLasts with
  | refl =>
      exact
        ⟨g₀, hOn, hRule, [], (List.append_nil _).symm, fun _ => rfl⟩
  | @step _ _ _ _ _ _ g' _ _ _ hFed hOn' ih =>
      rcases ih with ⟨g, hOnMid, hRuleMid, ops, hWritten, hLeaves⟩
      rcases hOnMid.feed hRuleMid hFed hOn' with
        ⟨hRule', ops', hWritten', hLeaves'⟩
      refine
        ⟨g', hOn', hRule', ops ++ ops', ?_, hLeaves.append hLeaves'⟩
      rw [hWritten', hWritten, List.append_assoc]

------------------------------------------------------------
-- Starts
------------------------------------------------------------

omit [Scalar α] in
/- A matrix lies on no matrix. -/
theorem Frame.not_bears_matrix
    {frame : Frame α}
    {kind : FrameKind}
    (hKind : frame.kind = .matrix) :
    kind ∉ frame.kind.bears := by
  rw [hKind]
  exact List.not_mem_nil

/- A geometry made of figures starts inside a path. -/
theorem PathFrame.startElement_eq
    {f : PathFrame α}
    {e : Element}
    (hName : e.name = "PathGeometry")
    (hClip : f.inClip = false) :
    startElement env lookup (.path f) e =
      f.startGeometry env e >>= fun (f', child?) =>
        pure (.path f', child?) := by
  unfold startElement startChild
  dsimp only
  simp only [hName, hClip]
  rfl

/- What the start of a geometry made of figures leaves. -/
theorem PathFrame.StartsFigures.perform
    {f f' : PathFrame α}
    {e : Element}
    {st read st' : RenderState α}
    {frame : Frame α}
    {child? : Option (Frame α)}
    (hStarts : f.StartsFigures env e st f' read)
    (hOk :
      (startElement env lookup (.path f) e).perform st =
        (.ok (frame, child?), st')) :
    child? =
        some (.geometry ⟨{ f'.state with clip? := none }, .empty⟩) ∧
      st'.surface =
        (Work.apply (.rule f'.state.fillRule) read.surface).clipToAny
          f'.state.clip? := by
  rcases
    clipToAny_perform f'.state.clip?
      (read.draw (Surface.record (.setFillRule f'.state.fillRule))) with
    ⟨result, hClip⟩
  rw [startElement_eq hStarts.name hStarts.unclipped, Action.perform_bind,
    startGeometry, Action.perform_bind_ok hStarts.read,
    hStarts.figures] at hOk
  dsimp only at hOk
  rw [Action.perform_bind_ok (Action.perform_draw _ _),
    Action.perform_bind, hClip] at hOk
  rcases result with fault | u
  · cases hOk
  · cases hOk
    exact ⟨rfl, rfl⟩

/- A geometry that starts inside a path is made of figures. -/
theorem PathFrame.startsFigures_of_perform
    {f : PathFrame α}
    {e : Element}
    {st st' : RenderState α}
    {frame : Frame α}
    {g : GeometryFrame α}
    (hOk :
      (startElement env lookup (.path f) e).perform st =
        (.ok (frame, some (.geometry g)), st')) :
    ∃ f' read, f.StartsFigures env e st f' read := by
  rcases f.startElement_gives e _ st st' hOk with ⟨f₁, -, hGiven⟩
  cases hGiven with
  | other hOther hRule hKind => exact absurd rfl (hKind _ rfl)
  | figures hTakes hRule hBlank =>
      rw [startElement_eq hTakes.1 hTakes.2, Action.perform_bind,
        startGeometry, Action.perform_bind] at hOk
      rcases hRead :
          Action.perform
            (e.attributes.foldlM (takeGeometryAttribute env e) f) st
        with ⟨fault | f', read⟩
      · rw [hRead] at hOk
        cases hOk
      · rw [hRead] at hOk
        dsimp only at hOk
        cases hFigures : lastValue? e "Figures" with
        | some figures =>
            rw [hFigures] at hOk
            cases hOk
        | none =>
            exact ⟨f', read, hTakes.1, hTakes.2, hRead, hFigures⟩

/-
  The geometry on the stack after an event was there before, or
  else its element has just started.
-/
theorem Stack.OnGeometry.before
    {root : FrameKind}
    {g : GeometryFrame α}
    {owner : Nat}
    {below : List (Entry α)}
    {stack stack' : Stack α}
    {place : Location}
    {event : Event}
    {product? : Option (Product α)}
    {st st' : RenderState α}
    (hGrown : WellGrown root stack.entries)
    (hFed :
      stack.feed env (FixedPage.startElement env (pageBrush env)) place
        st event = ⟨.ok product?, stack', st'⟩)
    (hOn : stack'.OnGeometry g owner below) :
    (∃ g₀, stack.OnGeometry g₀ owner below) ∨
      ∃ f f' pathOwner under depth name attributes read,
        stack = ⟨⟨.path f, pathOwner⟩ :: under, depth⟩ ∧
          event = .startTag name attributes ∧
          f.StartsFigures env ⟨place, name, attributes⟩ st f' read := by
  cases Stack.takes_of_feed hFed with
  | text => exact .inl ⟨g, hOn⟩
  | seen hStart =>
      have hKind := (startElement_kinds hStart).1
      cases hOn with
      | top =>
          rcases Frame.eq_geometry_of_kind hKind.symm with ⟨g₀, rfl⟩
          exact .inl ⟨g₀, .top⟩
      | turned =>
          rcases Frame.eq_matrix_of_kind hKind.symm with ⟨m, rfl⟩
          exact .inl ⟨g, .turned⟩
  | @owned _ _ _ pathOwner depth under name attributes _ _ hStart =>
      rcases startElement_kinds hStart with ⟨hKind, hBears⟩
      cases hOn with
      | top =>
          rcases Frame.eq_path_of_bears (hBears _ rfl) with ⟨f, rfl⟩
          rcases PathFrame.startsFigures_of_perform hStart with
            ⟨f', read, hStarts⟩
          exact
            .inr ⟨f, f', pathOwner, under, depth, name, attributes,
              read, rfl, rfl, hStarts⟩
      | turned =>
          rcases Frame.eq_geometry_of_kind hKind.symm with ⟨g₀, rfl⟩
          exact .inl ⟨g₀, .top⟩
  | @inside top _ _ _ name _ hOwner =>
      have hKind := top.endChild_kind env name .none st
      generalize top.endChild env name .none st = received
        at hOn hKind
      rcases received with ⟨frame, now⟩
      cases hOn with
      | top =>
          rcases Frame.eq_geometry_of_kind hKind.symm with ⟨g₀, rfl⟩
          exact .inl ⟨g₀, .top⟩
      | turned =>
          rcases Frame.eq_matrix_of_kind hKind.symm with ⟨m, rfl⟩
          exact .inl ⟨g, .turned⟩
  | @finished _ parent _ _ _ name product _ done hDone =>
      have hKind := parent.endChild_kind env name product done
      generalize parent.endChild env name product done = received
        at hOn hKind
      rcases received with ⟨frame, now⟩
      cases hOn with
      | top =>
          rcases Frame.eq_geometry_of_kind hKind.symm with ⟨g₀, rfl⟩
          rcases hGrown.eq_matrix rfl with ⟨m, hTop⟩
          cases hTop
          exact .inl ⟨g₀, .turned⟩
      | turned =>
          cases hGrown with
          | lie hBears _ =>
              exact absurd hBears (Frame.not_bears_matrix hKind.symm)
  | left hDone => cases hOn

------------------------------------------------------------
-- Open figures
------------------------------------------------------------

/-
  A run under way has a geometry made of figures on its stack. Its
  element has started inside a path, whose frame its attributes
  have made `f'`, and since then it has stayed there. It is the
  latest of the geometries that the path has been given.
-/
inductive OpenFigures
    (env : Environment α)
    (first : Run α)
    (st₀ : RenderState α)
    (outer : List (Run α))
    (owner : Nat)
    (below : List (Entry α))
    (f' : PathFrame α) :
    List Element → Run α → RenderState α → Prop
| intro
    {f : PathFrame α}
    {geometries : List Element}
    {pathOwner depth : Nat}
    {under : List (Entry α)}
    {place : Location}
    {name : String}
    {attributes : List Attribute}
    {rest : List Item}
    {stack : Stack α}
    {g₀ : GeometryFrame α}
    {product? : Option (Product α)}
    {run : Run α}
    {st read st' now : RenderState α}
    (hPath :
      OpenPath env first st₀ outer pathOwner under geometries
        ⟨.page, ⟨⟨.path f, pathOwner⟩ :: under, depth⟩,
          some (.ok (place, .startTag name attributes) :: rest)⟩ st)
    (hStarts :
      f.StartsFigures env ⟨place, name, attributes⟩ st f' read)
    (hFed :
      Stack.feed env (startElement env (pageBrush env)) place
        ⟨⟨.path f, pathOwner⟩ :: under, depth⟩ st
        (.startTag name attributes) = ⟨.ok product?, stack, st'⟩)
    (hOn : stack.OnGeometry g₀ owner below)
    (hLasts :
      GeometryLasts env owner below ⟨.page, stack, some rest⟩ st' run
        now) :
    OpenFigures env first st₀ outer owner below f'
      (⟨place, name, attributes⟩ :: geometries) run now

variable {first : Run α} {st₀ : RenderState α}

/- Figures are drawn with the rule of the geometries of the path. -/
theorem OpenFigures.rule
    {outer : List (Run α)}
    {owner : Nat}
    {below : List (Entry α)}
    {f' : PathFrame α}
    {geometries : List Element}
    {run : Run α}
    {now : RenderState α}
    (hOpen :
      OpenFigures env first st₀ outer owner below f' geometries run
        now) :
    f'.state.fillRule = givenRule geometries := by
  rcases hOpen with ⟨hPath, hStarts, -, -, -⟩
  have hRule := PathFrame.readGeometry_gives _ _ f' _ _ hStarts.read
  rw [givenRule_cons, ← hPath.holdsRule.path_rule]
  exact hRule

omit [Scalar α] in
/- A page starts without a geometry. -/
theorem Run.ofPage_no_geometry
    (items : List Item)
    (g : GeometryFrame α)
    (owner : Nat)
    (below : List (Entry α)) :
    ¬ (Run.ofPage items).stack.OnGeometry g owner below := by
  rintro ⟨⟩

omit [Scalar α] in
/- The stack that a page starts with is counted. -/
theorem Run.ofPage_counted
    {limit : Nat}
    (items : List Item)
    (st : RenderState α) :
    Stack.Counted .page limit st.visualDepth
      (Run.ofPage items : Run α).stack.entries st :=
  .start _ (.content ⟨none, 0⟩) 0 rfl (by simp [Frame.kind_content]) st

/-
  Whenever a geometry is on the stack of a run under way, it is
  open there: only the start of its element can have put it there.
-/
theorem Active.openFigures
    {root : FrameKind}
    {stack : Stack α}
    {items : List Item}
    {outer : List (Run α)}
    {g : GeometryFrame α}
    {owner : Nat}
    {below : List (Entry α)}
    {st : RenderState α}
    (hFirst :
      Stack.Counted root env.options.maxVisualDepth st₀.visualDepth
        first.stack.entries st₀)
    (hNone :
      ∀ (g : GeometryFrame α) (owner : Nat) (below : List (Entry α)),
        ¬ first.stack.OnGeometry g owner below)
    (hNoPath :
      ∀ (owner : Nat) (below : List (Entry α)),
        ¬ first.stack.HasPath owner below)
    (hActive :
      Active env first st₀ (⟨.page, stack, some items⟩ :: outer) st)
    (hOn : stack.OnGeometry g owner below) :
    ∃ f' geometries,
      OpenFigures env first st₀ outer owner below f' geometries
        ⟨.page, stack, some items⟩ st := by
  refine
    hActive.page_induction
      (Q := fun outer stack items st =>
        ∀ g, stack.OnGeometry g owner below →
          ∃ f' geometries,
            OpenFigures env first st₀ outer owner below f' geometries
              ⟨.page, stack, some items⟩ st)
      ?first ?brush ?step g hOn
  case first =>
    intro stack items hIs g hOn
    rw [hIs] at hNone
    exact absurd hOn (hNone g owner below)
  case brush => rintro outer items st g ⟨⟩
  case step =>
    intro stack stack' place event rest product? outer st st' hRun hFed
      hOpen g hOn
    have hGrown : ∃ root', Stack.WellGrown root' stack.entries := by
      rcases hRun.count hFirst with ⟨⟨root', -, hCounted⟩, -⟩
      exact ⟨root', hCounted.grown⟩
    rcases hGrown with ⟨root', hGrown⟩
    rcases hOn.before hGrown hFed with
      ⟨g₀, hBefore⟩ | ⟨f, f', pathOwner, under, depth, name,
        attributes, read, rfl, rfl, hStarts⟩
    · rcases hOpen g₀ hBefore with ⟨f', geometries, hOpen⟩
      cases hOpen with
      | intro hPath hStarts hFirstFed hOnFirst hLasts =>
          exact
            ⟨f', _, .intro hPath hStarts hFirstFed hOnFirst
              (.step hLasts hFed hOn)⟩
    · rcases hRun.openPath hNoPath ⟨[], f, rfl⟩ with
        ⟨geometries, hPath⟩
      exact ⟨f', _, .intro hPath hStarts hFed hOn .refl⟩

end

end FixedPage
