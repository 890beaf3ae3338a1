import FixedPage.Proofs.Render.Active
import FixedPage.Proofs.Surface.Operations
import Mathlib.Logic.Relation

/-
  This file says where what is drawn on a page comes from. Apart
  from brackets, transformations and the painting of groups,
  every operation belongs to a piece of work: a fill rule, a
  clip, the tile of a visual brush, a figure, a path or a run of
  glyphs. Each piece of work is done in a run under way, at an
  event that calls for it.

  Main declarations:
    * `Surface.Routine`
    * `Work`
    * `Work.CalledFor`
    * `Drawing`
    * `Drawing.called`
-/

namespace FixedPage

open Markup

variable {α : Type}

------------------------------------------------------------
-- Routine
------------------------------------------------------------

/-
  Drawing that many elements have in common: brackets,
  transformations, and the painting of groups.
-/
inductive Surface.Routine
    [Scalar α]
    (s : Surface α) : Surface α → Prop
| save :
    Routine s s.save
| restore :
    Routine s s.restore
| transform
    (m : Matrix α) :
    Routine s (s.transform m)
| pushGroup :
    Routine s s.pushGroup
| closeGroup :
    Routine s s.closeGroup
| setSource
    (pattern : Pattern α) :
    Routine s (s.setSource pattern)
| paintWithAlpha
    (alpha : α) :
    Routine s (s.record (.paintWithAlpha alpha))
| mask
    (pattern : Pattern α) :
    Routine s (s.record (.mask pattern))

/- Routine drawing, step by step. -/
abbrev Surface.Routines
    [Scalar α] : Surface α → Surface α → Prop :=
  Relation.ReflTransGen Surface.Routine

namespace Surface.Routines

variable [Scalar α]
variable {s s' s'' : Surface α} {f : Surface α → Surface α}

/- What is drawn only sometimes. -/
theorem onlyIf
    (condition : Bool)
    (hDraw : ∀ s, Routines s (f s))
    (s : Surface α) :
    Routines s (FixedPage.onlyIf condition f s) := by
  cases condition with
  | false => exact .refl
  | true => exact hDraw s

/- Painting with a group that is closed. -/
theorem popGroupToSource
    (s : Surface α) :
    Routines s s.popGroupToSource :=
  .tail (.single .closeGroup) (.setSource _)

theorem maskGroup
    (mask? : Option (Pattern α))
    (s : Surface α) :
    Routines s (FixedPage.maskGroup mask? s) := by
  cases mask? with
  | none => exact popGroupToSource s
  | some mask => exact .tail (popGroupToSource s) (.mask mask)

theorem paintGroup
    (opacity : α)
    (s : Surface α) :
    Routines s (FixedPage.paintGroup opacity s) :=
  .tail (popGroupToSource s) (.paintWithAlpha opacity)

theorem paintGroups
    (inMask inOpacity : Bool)
    (mask? : Option (Pattern α))
    (opacity : α)
    (s : Surface α) :
    Routines s
      (FixedPage.paintGroups inMask inOpacity mask? opacity s) :=
  .trans (onlyIf inMask (maskGroup mask?) s)
    (onlyIf inOpacity (paintGroup opacity) _)

theorem dropGroups
    (inMask inOpacity : Bool)
    (s : Surface α) :
    Routines s (FixedPage.dropGroups inMask inOpacity s) :=
  .trans (onlyIf inMask (fun _ => .single .closeGroup) s)
    (onlyIf inOpacity (fun _ => .single .closeGroup) _)

/- Opening the groups of an element. -/
theorem openGroups
    (inMask inOpacity : Bool)
    (s : Surface α) :
    Routines s
      (FixedPage.onlyIf inMask Surface.pushGroup
        (FixedPage.onlyIf inOpacity Surface.pushGroup s)) :=
  .trans (onlyIf inOpacity (fun _ => .single .pushGroup) s)
    (onlyIf inMask (fun _ => .single .pushGroup) _)

/- A pattern in a group of its own. -/
theorem groupWithOpacity
    (pattern : Pattern α)
    (opacity : α)
    (s : Surface α) :
    Routines s (FixedPage.groupWithOpacity pattern opacity s).2 :=
  .tail
    (.tail (.tail (.single .pushGroup) (.setSource pattern))
      (.paintWithAlpha opacity))
    .closeGroup

/- The group of a visual brush that has ended. -/
theorem resolveVisual
    (v : VisualBrush α)
    (s : Surface α) :
    Routines s (v.resolve s).2 :=
  .tail (.single .closeGroup) .restore

end Surface.Routines

------------------------------------------------------------
-- Work
------------------------------------------------------------

/-
  A piece of work on the surface: setting a fill rule, narrowing
  the clip to path data, opening the group of a visual brush,
  and drawing a figure, a path or a run of glyphs.
-/
inductive Work (α : Type) where
  | rule
      (rule : FillRule)
  | clip
      (data : String)
  | tile
      (v : VisualBrush α)
  | figure
      (g : GeometryFrame α)
  | path
      (state : PathState α)
      (data : String)
  | glyphs
      (run : GlyphRun α)
      (matrix : Matrix α)
      (layout : GlyphLayout α)

section

variable [Scalar α]

/- Does a piece of work. -/
def Work.apply
    (work : Work α)
    (s : Surface α) : Surface α :=
  match work with
  | .rule r => s.record (.setFillRule r)
  | .clip data => s.clipTo data
  | .tile v => v.openGroup s
  | .figure g => (g.endFigure s).2
  | .path state data =>
      paintPath (PathBuilder.empty.takeAll (PathData.trace data).steps)
        state true s
  | .glyphs run matrix layout => run.show matrix layout s

/-
  A geometry made of figures starts inside a path: what its
  attributes make of the frame of the path and of the state.
-/
structure PathFrame.StartsFigures
    (env : Environment α)
    (f : PathFrame α)
    (e : Element)
    (st : RenderState α)
    (f' : PathFrame α)
    (st' : RenderState α) : Prop where
  name : e.name = "PathGeometry"
  unclipped : f.inClip = false
  read :
    Action.perform
      (e.attributes.foldlM (PathFrame.takeGeometryAttribute env e) f)
      st = (.ok f', st')
  figures : PathFrame.lastValue? e "Figures" = none

/- A figure that ends is one of the geometry on the stack. -/
inductive Stack.EndsFigure
    (g : GeometryFrame α) : Stack α → Prop
| inside
    {owner depth : Nat}
    {below : List (Entry α)}
    (hOwner : owner ≠ depth) :
    EndsFigure g ⟨⟨.geometry g, owner⟩ :: below, depth⟩
| after
    {m : Matrix α}
    {owner depth : Nat}
    {below : List (Entry α)} :
    EndsFigure g
      ⟨⟨.matrix m, depth⟩ :: ⟨.geometry g, owner⟩ :: below, depth⟩

/-
  An event calls for a piece of work on a surface, when the
  frames and the state before the event are given.
-/
inductive Work.CalledFor
    (env : Environment α) :
    Work α → Stack α → Location → Event → RenderState α →
      Surface α → Prop
| canvasClip
    {top : Entry α}
    {below : List (Entry α)}
    {depth : Nat}
    {place : Location}
    {attributes : List Attribute}
    {style : CanvasStyle α}
    {st read : RenderState α}
    {data : String}
    (hFrame : top.frame.kind ∈ [.page, .visual, .canvas])
    (hRead :
      Action.perform
        (attributes.foldlM
          (CanvasStyle.takeAttribute env (pageBrush env)
            ⟨place, "Canvas", attributes⟩)
          ⟨none, 1, none⟩)
        (st.draw Surface.save) = (.ok style, read))
    (hClip : style.clip? = some data) :
    CalledFor env (.clip data) ⟨top :: below, depth⟩ place
      (.startTag "Canvas" attributes) st read.surface
| figuresRule
    {f f' : PathFrame α}
    {owner depth : Nat}
    {below : List (Entry α)}
    {place : Location}
    {name : String}
    {attributes : List Attribute}
    {st read : RenderState α}
    (hStarts : f.StartsFigures env ⟨place, name, attributes⟩ st f' read) :
    CalledFor env (.rule f'.state.fillRule)
      ⟨⟨.path f, owner⟩ :: below, depth⟩ place
      (.startTag name attributes) st read.surface
| figuresClip
    {f f' : PathFrame α}
    {owner depth : Nat}
    {below : List (Entry α)}
    {place : Location}
    {name : String}
    {attributes : List Attribute}
    {st read : RenderState α}
    {data : String}
    (hStarts : f.StartsFigures env ⟨place, name, attributes⟩ st f' read)
    (hClip : f'.state.clip? = some data) :
    CalledFor env (.clip data) ⟨⟨.path f, owner⟩ :: below, depth⟩ place
      (.startTag name attributes) st
      (Work.apply (.rule f'.state.fillRule) read.surface)
| tile
    {top : Entry α}
    {below : List (Entry α)}
    {depth : Nat}
    {place : Location}
    {attributes : List Attribute}
    {st : RenderState α}
    {v : VisualBrush α}
    (hFrame : top.frame.kind = .brush)
    (hRead :
      (VisualBrush.read env
        ⟨place, "VisualBrush", attributes⟩).perform st = (.ok v, st)) :
    CalledFor env (.tile v) ⟨top :: below, depth⟩ place
      (.startTag "VisualBrush" attributes) st st.surface
| figure
    {g : GeometryFrame α}
    {stack : Stack α}
    {place : Location}
    {st : RenderState α}
    (hEnds : stack.EndsFigure g) :
    CalledFor env (.figure g) stack place (.endTag "PathFigure") st
      st.surface
| pathRule
    {f : PathFrame α}
    {depth : Nat}
    {below : List (Entry α)}
    {place : Location}
    {name data : String}
    {st : RenderState α}
    (hData : f.state.data? = some data) :
    CalledFor env (.rule f.state.fillRule)
      ⟨⟨.path f, depth⟩ :: below, depth⟩ place (.endTag name) st
      st.surface
| pathClip
    {f : PathFrame α}
    {depth : Nat}
    {below : List (Entry α)}
    {place : Location}
    {name data clip : String}
    {st : RenderState α}
    (hData : f.state.data? = some data)
    (hClip : f.state.clip? = some clip) :
    CalledFor env (.clip clip) ⟨⟨.path f, depth⟩ :: below, depth⟩ place
      (.endTag name) st (Work.apply (.rule f.state.fillRule) st.surface)
| path
    {f : PathFrame α}
    {depth : Nat}
    {below : List (Entry α)}
    {place : Location}
    {name data : String}
    {st : RenderState α}
    (hData : f.state.data? = some data)
    (hGood : (PathData.trace (α := α) data).fault? = none) :
    CalledFor env (.path f.state data)
      ⟨⟨.path f, depth⟩ :: below, depth⟩ place (.endTag name) st
      ((Work.apply (.rule f.state.fillRule) st.surface).clipToAny
        f.state.clip?)
| glyphsClip
    {f : GlyphsFrame α}
    {depth : Nat}
    {below : List (Entry α)}
    {place : Location}
    {name data : String}
    {st : RenderState α}
    (hClip : f.run.clip? = some data) :
    CalledFor env (.clip data) ⟨⟨.glyphs f, depth⟩ :: below, depth⟩
      place (.endTag name) st st.surface
| glyphs
    {f : GlyphsFrame α}
    {depth : Nat}
    {below : List (Entry α)}
    {place : Location}
    {name : String}
    {st loaded : RenderState α}
    {font : Font α}
    {layout : GlyphLayout α}
    (hFont : (f.run.loadFont env).perform st = (.ok font, loaded))
    (hLayout :
      layoutGlyphs ⟨font, f.run.fontMatrix⟩ f.run.placement
        f.run.shownText f.run.indices? = .ok layout) :
    CalledFor env (.glyphs f.run f.run.fontMatrix layout)
      ⟨⟨.glyphs f, depth⟩ :: below, depth⟩ place (.endTag name) st
      (st.surface.clipToAny f.run.clip?)

/-
  A surface comes from another one by routine drawing and by
  pieces of work that runs under way have called for.
-/
inductive Drawing
    (env : Environment α)
    (first : Run α)
    (st₀ : RenderState α)
    (s₀ : Surface α) : Surface α → Prop
| refl :
    Drawing env first st₀ s₀ s₀
| routine
    {s s' : Surface α}
    (hDrawn : Drawing env first st₀ s₀ s)
    (hRoutine : s.Routine s') :
    Drawing env first st₀ s₀ s'
| work
    {s : Surface α}
    {stack : Stack α}
    {place : Location}
    {event : Event}
    {rest : List Item}
    {outer : List (Run α)}
    {st : RenderState α}
    {work : Work α}
    (hDrawn : Drawing env first st₀ s₀ s)
    (hActive :
      Active env first st₀
        (⟨.page, stack, some (.ok (place, event) :: rest)⟩ :: outer) st)
    (hWork : work.CalledFor env stack place event st s) :
    Drawing env first st₀ s₀ (work.apply s)

namespace Drawing

variable {env : Environment α} {first : Run α} {st₀ : RenderState α}
variable {s s' s'' : Surface α}

theorem trans
    (hFirst : Drawing env first st₀ s s')
    (hNext : Drawing env first st₀ s' s'') :
    Drawing env first st₀ s s'' := by
  induction hNext with
  | refl => exact hFirst
  | routine _ hRoutine ih => exact .routine ih hRoutine
  | work _ hActive hWork ih => exact .work ih hActive hWork

/- Routine drawing is no work. -/
theorem routines
    (hRoutines : s.Routines s') :
    Drawing env first st₀ s s' := by
  induction hRoutines with
  | refl => exact .refl
  | tail _ hRoutine ih => exact .routine ih hRoutine

end Drawing

------------------------------------------------------------
-- Operations
------------------------------------------------------------

omit [Scalar α] in
/- The operation may belong to routine drawing. -/
def Operation.isRoutine : Operation α → Bool
| .save => true
| .restore => true
| .transform _ => true
| .setSource _ => true
| .paintWithAlpha _ => true
| .pushGroup => true
| .popGroup _ => true
| .mask _ => true
| _ => false

/- A step of routine drawing writes one operation. -/
theorem Surface.Routine.written
    {s s' : Surface α}
    (hRoutine : s.Routine s') :
    ∃ op : Operation α,
      op.isRoutine = true ∧ s'.written = s.written ++ [op] := by
  cases hRoutine with
  | save => exact ⟨_, rfl, written_save s⟩
  | restore => exact ⟨_, rfl, written_restore s⟩
  | transform m => exact ⟨_, rfl, written_transform m s⟩
  | pushGroup => exact ⟨_, rfl, written_pushGroup s⟩
  | closeGroup => exact ⟨_, rfl, written_closeGroup s⟩
  | setSource pattern => exact ⟨_, rfl, written_setSource pattern s⟩
  | paintWithAlpha alpha => exact ⟨_, rfl, written_record _ s⟩
  | mask pattern => exact ⟨_, rfl, written_record _ s⟩

/- Opening the group of a visual brush clips to its tile. -/
theorem written_openGroup
    (v : VisualBrush α)
    (s : Surface α) :
    ∃ turns : List (Operation α),
      (∀ op ∈ turns, op.isRoutine = true) ∧
        (v.openGroup s).written =
          s.written
            ++ (.save :: boxOperations ⟨0, 0, v.width, v.height⟩
              ++ .pushGroup :: turns) := by
  unfold VisualBrush.openGroup VisualBrush.fitViewbox
  dsimp only
  split
  · exact ⟨[], by simp, by simp [boxOperations]⟩
  · refine
      ⟨[.transform (.scaling (v.width / v.viewbox.width)
            (v.height / v.viewbox.height)),
          .transform (.shift (-v.viewbox.x) (-v.viewbox.y))],
        ?_, ?_⟩
    · intro op hMem
      simp only [List.mem_cons, List.not_mem_nil, or_false] at hMem
      rcases hMem with rfl | rfl <;> rfl
    · simp [Surface.scale, Surface.translate, boxOperations]

omit [Scalar α] in
/- Showing a run of glyphs sets its source first. -/
theorem written_show
    (run : GlyphRun α)
    (matrix : Matrix α)
    (layout : GlyphLayout α)
    (s : Surface α) :
    (run.show matrix layout s).written =
      s.written
        ++ (run.fill?.elim [] fun fill => [.setSource fill])
        ++ [.showGlyphs matrix layout run.shownText] := by
  unfold GlyphRun.show
  cases run.fill? <;> simp

/- A piece of work adds operations. -/
theorem Work.written
    (work : Work α)
    (s : Surface α) :
    ∃ ops, (work.apply s).written = s.written ++ ops := by
  cases work with
  | rule r => exact ⟨_, Surface.written_record _ s⟩
  | clip data => exact ⟨_, Surface.written_clipTo data s⟩
  | tile v =>
      rcases written_openGroup v s with ⟨turns, -, hWritten⟩
      exact ⟨_, hWritten⟩
  | figure g =>
      rcases
        written_paintPath
          (if g.state.isClosed then g.figure.push .close else g.figure)
          g.state g.state.isFilled s with
        ⟨ends, -, hWritten⟩
      exact ⟨_, hWritten⟩
  | path state data =>
      rcases
        written_paintPath
          (PathBuilder.empty.takeAll (PathData.trace data).steps) state
          true s with
        ⟨ends, -, hWritten⟩
      exact ⟨_, hWritten⟩
  | glyphs run matrix layout =>
      exact
        ⟨_, (written_show run matrix layout s).trans
          (List.append_assoc ..)⟩

/- Nothing but a figure, a path or a glyph run is painted. -/
theorem Work.paints
    {work : Work α}
    {s : Surface α}
    {op : Operation α}
    {before after : List (Operation α)}
    (hWritten :
      (work.apply s).written = s.written ++ (before ++ op :: after))
    (hPaint : op.paints = true) :
    (∃ g, work = .figure g) ∨
      (∃ state data, work = .path state data) ∨
        ∃ run matrix layout, work = .glyphs run matrix layout := by
  have hNone :
      ∀ ops : List (Operation α),
        (work.apply s).written = s.written ++ ops →
          ¬ ∀ op ∈ ops, op.paints = false := by
    intro ops hOps hNone
    have hSame := List.append_cancel_left (hOps.symm.trans hWritten)
    have hOp := hNone op (by rw [hSame]; simp)
    rw [hOp] at hPaint
    cases hPaint
  have hRoutine :
      ∀ op : Operation α, op.isRoutine = true → op.paints = false := by
    intro op hRoutine
    cases op <;> first | rfl | cases hRoutine
  cases work with
  | figure g => exact .inl ⟨g, rfl⟩
  | path state data => exact .inr (.inl ⟨state, data, rfl⟩)
  | glyphs run matrix layout =>
      exact .inr (.inr ⟨run, matrix, layout, rfl⟩)
  | rule r =>
      refine absurd ?_ (hNone _ (Surface.written_record _ s))
      intro op hMem
      cases List.mem_singleton.mp hMem
      rfl
  | clip data =>
      refine absurd ?_ (hNone _ (Surface.written_clipTo data s))
      intro op hMem
      exact
        Operation.paints_of_isOutline
          (isOutline_clipOperations data op hMem)
  | tile v =>
      rcases written_openGroup v s with ⟨turns, hTurns, hTile⟩
      refine absurd ?_ (hNone _ hTile)
      intro op hMem
      rw [List.mem_append, List.mem_cons, List.mem_cons] at hMem
      rcases hMem with (rfl | hBox) | rfl | hTurn
      · rfl
      · exact
          Operation.paints_of_isOutline
            (isOutline_boxOperations _ op hBox)
      · rfl
      · exact hRoutine op (hTurns op hTurn)

/-
  An operation that is not routine belongs to a piece of work. It
  is written after `before`, which the work has written itself.
-/
theorem Drawing.called
    {env : Environment α}
    {first : Run α}
    {st₀ : RenderState α}
    {s₀ s : Surface α}
    {op : Operation α}
    {pre post : List (Operation α)}
    (hDrawn : Drawing env first st₀ s₀ s)
    (hWritten : s.written = pre ++ op :: post)
    (hNew : s₀.written.length ≤ pre.length)
    (hOp : op.isRoutine = false) :
    ∃ (stack : Stack α) (place : Location) (event : Event)
      (rest : List Item) (outer : List (Run α))
      (st : RenderState α) (work : Work α) (t : Surface α)
      (before after : List (Operation α)),
      Active env first st₀
          (⟨.page, stack, some (.ok (place, event) :: rest)⟩ :: outer)
          st ∧
        work.CalledFor env stack place event st t ∧
        (work.apply t).written =
          t.written ++ (before ++ op :: after) ∧
        pre = t.written ++ before := by
  induction hDrawn generalizing post with
  | refl =>
      rw [hWritten, List.length_append, List.length_cons] at hNew
      omega
  | @routine s s' _ hRoutine ih =>
      rcases hRoutine.written with ⟨last, hLast, hStep⟩
      rw [hStep] at hWritten
      rcases List.append_eq_append_iff.mp hWritten with
        ⟨mid, hPre, hMid⟩ | ⟨mid, hPre, hMid⟩
      · cases mid with
        | nil =>
            cases hMid
            rw [hLast] at hOp
            cases hOp
        | cons _ mid => simp at hMid
      · cases mid with
        | nil =>
            cases hMid
            rw [hLast] at hOp
            cases hOp
        | cons _ mid =>
            cases hMid
            exact ih hPre
  | @work s stack place event rest outer st work _ hActive hWork ih =>
      rcases work.written s with ⟨ops, hStep⟩
      have hSplit := hStep.symm.trans hWritten
      rcases List.append_eq_append_iff.mp hSplit with
        ⟨before, hPre, hOps⟩ | ⟨mid, hPre, hMid⟩
      · exact
          ⟨stack, place, event, rest, outer, st, work, s, before, post,
            hActive, hWork, hOps ▸ hStep, hPre⟩
      · cases mid with
        | nil =>
            rw [List.append_nil] at hPre
            exact
              ⟨stack, place, event, rest, outer, st, work, s, [], post,
                hActive, hWork, hMid ▸ hStep,
                by rw [List.append_nil, hPre]⟩
        | cons _ mid =>
            cases hMid
            exact ih hPre

/- What changes between two states has been drawn. -/
def DrawsOn
    (env : Environment α)
    (first : Run α)
    (st₀ st st' : RenderState α) : Prop :=
  Drawing env first st₀ st.surface st'.surface

instance
    (env : Environment α)
    (first : Run α)
    (st₀ : RenderState α) :
    Std.Refl (DrawsOn env first st₀) where
  refl _ := .refl

instance
    (env : Environment α)
    (first : Run α)
    (st₀ : RenderState α) :
    IsTrans (RenderState α) (DrawsOn env first st₀) where
  trans _ _ _ := .trans

end

end FixedPage
