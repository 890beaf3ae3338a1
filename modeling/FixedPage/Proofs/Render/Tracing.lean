import FixedPage.Proofs.Render.Figures
import FixedPage.Proofs.Render.Marking

/-
  This file follows an element that draws through a run, from its
  start until its end. On the stack the frame of the element may
  lie under a geometry of its own and under whatever has started
  inside of it. Only the first two leave marks; all that the
  others draw is enclosed once they have ended.

  Main declarations:
    * `Stack.Marks`
    * `Stack.Traces`
    * `Stack.Traces.feed`
    * `Stays.traces`
    * `OpenElement`
    * `Active.openElement`
    * `Active.endsFigure_onPath`
-/

namespace FixedPage

open Markup

variable {α : Type}

------------------------------------------------------------
-- Frames of an element
------------------------------------------------------------

/-
  The top frame belongs to an element of a kind that has `below`
  under it: it is the frame of the element or, on a path, that of
  a geometry.
-/
inductive Stack.Own
    (kind : FrameKind)
    (owner : Nat)
    (below : List (Entry α)) : List (Entry α) → Prop
| element
    {frame : Frame α}
    (hKind : frame.kind = kind)
    (hDraws : kind.draws = true) :
    Own kind owner below (⟨frame, owner⟩ :: below)
| geometry
    {f : PathFrame α}
    {g : GeometryFrame α}
    {inner : Nat}
    (hKind : kind = .path) :
    Own kind owner below
      (⟨.geometry g, inner⟩ :: ⟨.path f, owner⟩ :: below)

/-
  The top frame belongs to the element that has `height` frames
  below it.
-/
def Stack.isOwn
    (height : Nat) :
    List (Entry α) → Bool
| ⟨.geometry _, _⟩ :: _ :: below => below.length == height
| _ :: below => below.length == height
| [] => false

/- The top frame is in the group of its mask only with a mark. -/
def Stack.Masked
    (marks : List (Mark α))
    (entries : List (Entry α)) : Prop :=
  ∀ top ∈ entries.head?,
    top.frame.outline.inMask = true → .group ∈ marks

/- A frame that is in no group is in the group of no mask. -/
theorem Stack.Masked.of_false
    {marks : List (Mark α)}
    {top : Entry α}
    {rest : List (Entry α)}
    (hMask : top.frame.outline.inMask = false) :
    Masked marks (top :: rest) := by
  intro first hFirst hIn
  cases hFirst
  rw [hMask] at hIn
  cases hIn

/- The start of an element opens the group of its mask. -/
theorem Stack.Masked.start
    {frame : Frame α}
    {inner : Nat}
    {rest : List (Entry α)}
    (turns : List (Matrix α))
    (clip? : Option String) :
    Masked (startMarks turns clip? frame.outline)
      (⟨frame, inner⟩ :: rest) := by
  intro first hFirst hIn
  cases hFirst
  simp [startMarks, FrameOutline.marks, hIn]

namespace Stack.Own

variable {kind : FrameKind} {owner : Nat}
variable {below own : List (Entry α)}

/- There are more frames than below the element. -/
theorem length_lt
    (hOwn : Own kind owner below own) :
    below.length < own.length := by
  cases hOwn <;> simp only [List.length_cons] <;> omega

/- The top frame belongs to the element. -/
theorem isOwn
    (hOwn : Own kind owner below own) :
    Stack.isOwn below.length own = true := by
  cases hOwn with
  | @element frame hKind hDraws =>
      cases frame with
      | geometry g =>
          subst hKind
          cases hDraws
      | _ => simp [Stack.isOwn]
  | geometry => simp [Stack.isOwn]

/- The top frame leaves marks. -/
theorem marks
    {top : Entry α}
    {rest : List (Entry α)}
    (hOwn : Own kind owner below (top :: rest)) :
    top.frame.kind.marks = true := by
  cases hOwn with
  | @element frame hKind hDraws =>
      subst hKind
      revert hDraws
      cases frame.kind <;> decide
  | geometry => rfl

/- The top frame may change but for its kind. -/
theorem replace
    {frame frame' : Frame α}
    {inner : Nat}
    {rest : List (Entry α)}
    (hOwn : Own kind owner below (⟨frame, inner⟩ :: rest))
    (hKind : frame'.kind = frame.kind) :
    Own kind owner below (⟨frame', inner⟩ :: rest) := by
  cases hOwn with
  | element hIs hDraws => exact .element (hKind.trans hIs) hDraws
  | geometry hIs =>
      rcases Frame.eq_geometry_of_kind hKind with ⟨g, rfl⟩
      exact .geometry hIs

/-
  A frame further up does not belong to the element, unless it
  is a geometry that lies on no path.
-/
theorem not_isOwn
    {root : FrameKind}
    {top : Entry α}
    {above : List (Entry α)}
    (hOwn : Own kind owner below own)
    (hGrown : WellGrown root (top :: above))
    (hRoot : root ≠ .geometry) :
    Stack.isOwn below.length (top :: above ++ own) = false := by
  have hLength := hOwn.length_lt
  rcases top with ⟨frame, inner⟩
  cases frame with
  | geometry g =>
      cases hGrown with
      | root hBottom => exact absurd hBottom.symm hRoot
      | lie _ _ =>
          simp only [Stack.isOwn, List.cons_append,
            List.length_append, beq_eq_false_iff_ne]
          omega
  | _ =>
      simp only [Stack.isOwn, List.cons_append, List.length_append,
        beq_eq_false_iff_ne]
      omega

end Stack.Own

section

variable [Scalar α]

------------------------------------------------------------
-- Marks of events
------------------------------------------------------------

/-
  The marks that the end of an element leaves: those of the frame
  that sees it, if this one belongs to the element that has
  `height` frames below it.
-/
def Stack.endMarks
    (env : Environment α)
    (height : Nat)
    (name : String)
    (stack : Stack α)
    (st : RenderState α) : List (Mark α) :=
  match stack.entries with
  | [] => []
  | top :: below =>
      if top.owner ≠ stack.depth then
        if isOwn height (top :: below) then top.frame.marks name .none
        else []
      else
        match (top.frame.finish env).perform st, below with
        | (.ok product, _), parent :: rest =>
            if isOwn height (parent :: rest) then
              parent.frame.marks name product
            else []
        | _, _ => []

/-
  The marks that an event leaves of an element that has `height`
  frames below it.
-/
inductive Stack.Marks
    (env : Environment α)
    (height : Nat)
    (place : Location)
    (stack : Stack α)
    (st : RenderState α) : Event → List (Mark α) → Prop
| text
    {content : String} :
    Marks env height place stack st (.text content) []
| geometry
    {f : PathFrame α}
    {owner : Nat}
    {below : List (Entry α)}
    {name : String}
    {attributes : List Attribute}
    {turns : List (Matrix α)}
    (hTop : stack.entries = ⟨.path f, owner⟩ :: below)
    (hHeight : below.length = height)
    (hTakes : f.Takes ⟨place, name, attributes⟩)
    (hTurns :
      TurnsBy env ⟨place, name, attributes⟩ "Transform" attributes
        turns) :
    Marks env height place stack st (.startTag name attributes)
      (f.geometryMarks ⟨place, name, attributes⟩ turns)
| start
    {name : String}
    {attributes : List Attribute}
    (hOther :
      ∀ f owner below,
        stack.entries = ⟨.path f, owner⟩ :: below →
          below.length = height →
            ¬ f.Takes ⟨place, name, attributes⟩) :
    Marks env height place stack st (.startTag name attributes) []
| ended
    {name : String} :
    Marks env height place stack st (.endTag name)
      (stack.endMarks env height name st)

------------------------------------------------------------
-- Traces of stacks
------------------------------------------------------------

/-
  Since `s` an element has left marks on the surface, and the
  frames above its own hold brackets open on top of them.
-/
inductive Stack.Traces
    (s : Surface α)
    (kind : FrameKind)
    (owner : Nat)
    (below : List (Entry α))
    (marks : List (Mark α))
    (entries : List (Entry α))
    (st : RenderState α) : Prop
| intro
    (root : FrameKind)
    (above own : List (Entry α))
    (base : Surface α)
    (hEntries : entries = above ++ own)
    (hOwn : Own kind owner below own)
    (hMasked : Masked marks own)
    (hTraced : s.Traced marks base)
    (hGeometry : root ≠ .geometry)
    (hVisual : root ≠ .visual)
    (hBalanced : Balanced root base above st)

namespace Stack.Traces

variable {env : Environment α} {s : Surface α} {kind : FrameKind}
variable {owner : Nat} {below : List (Entry α)}
variable {marks : List (Mark α)}

/- Nothing lies on the frames of the element. -/
theorem own
    {own : List (Entry α)}
    {st : RenderState α}
    (hOwn : Own kind owner below own)
    (hMasked : Masked marks own)
    (hTraced : s.Traced marks st.surface) :
    Traces s kind owner below marks own st :=
  .intro .page [] own st.surface rfl hOwn hMasked hTraced
    (by decide) (by decide)
    ⟨.empty, by simp, .level (.refl false st.surface)⟩

/- Something without brackets lies on the frames of the element. -/
theorem bare
    {child : Frame α}
    {depth : Nat}
    {own : List (Entry α)}
    {st : RenderState α}
    (hOwn : Own kind owner below own)
    (hMasked : Masked marks own)
    (hTraced : s.Traced marks st.surface)
    (hBare : child.outline = .bare child.kind)
    (hKind :
      child.kind ∈
        [.brush, .gradient, .image, .matrix, .dictionary, .resources]) :
    Traces s kind owner below marks (⟨child, depth⟩ :: own) st := by
  have hPlain :
      child.kind ≠ .geometry ∧ child.kind ≠ .visual ∧
        (FrameOutline.bare child.kind).brackets = [] := by
    revert hKind
    cases child.kind <;> decide
  refine
    .intro _ [⟨child, depth⟩] own _ rfl hOwn hMasked hTraced
      hPlain.1 hPlain.2.1 (.start child depth rfl ?_ ?_ st)
  · rw [Frame.Consistent, hBare]
    rfl
  · rw [hBare]
    exact hPlain.2.2

/- An element that draws lies on the frames of the element. -/
theorem drawing
    {child : Frame α}
    {depth : Nat}
    {own : List (Entry α)}
    {st st' : RenderState α}
    (hOwn : Own kind owner below own)
    (hMasked : Masked marks own)
    (hTraced : s.Traced marks st.surface)
    (hOpened : child.Opened OnLevel st st') :
    Traces s kind owner below marks (⟨child, depth⟩ :: own) st' := by
  have hPlain : child.kind ≠ .geometry ∧ child.kind ≠ .visual := by
    have hDraws := hOpened.draws
    revert hDraws
    cases child.kind <;> decide
  refine
    .intro _ [⟨child, depth⟩] own _ rfl hOwn hMasked hTraced
      hPlain.1 hPlain.2 ⟨.root rfl, by simpa using hOpened.consistent, ?_⟩
  have hInside :=
    hOpened.inside (.level (Surface.Level.refl false st.surface))
  simpa [Stack.brackets] using hInside

/- Without a frame on its own, the element has left its marks. -/
theorem traced
    {own : List (Entry α)}
    {st : RenderState α}
    (hOwn : Own kind owner below own)
    (hTraces : Traces s kind owner below marks own st) :
    s.Traced marks st.surface ∧ Masked marks own := by
  rcases hTraces with
    ⟨root, above, own', base, hEntries, hOwn', hMasked, hTraced,
      hGeometry, -, hBalanced⟩
  cases above with
  | nil =>
      rw [List.nil_append] at hEntries
      subst hEntries
      exact ⟨hTraced.enclosed hBalanced.inside.level_of_nil, hMasked⟩
  | cons top above =>
      have hNot := hOwn'.not_isOwn hBalanced.grown hGeometry
      rw [← hEntries, hOwn.isOwn] at hNot
      cases hNot

/- A frame without brackets on its own makes no difference. -/
theorem traced_bare
    {top : Entry α}
    {own : List (Entry α)}
    {st : RenderState α}
    (hOwn : Own kind owner below own)
    (hDraws : top.frame.kind.marks = false)
    (hBare : top.frame.outline.brackets = [])
    (hTraces : Traces s kind owner below marks (top :: own) st) :
    s.Traced marks st.surface := by
  rcases hTraces with
    ⟨root, above, own', base, hEntries, hOwn', -, hTraced, hGeometry,
      -, hBalanced⟩
  rcases above with _ | ⟨first, _ | ⟨next, above⟩⟩
  · rw [List.nil_append] at hEntries
    rw [← hEntries] at hOwn'
    rw [hOwn'.marks] at hDraws
    cases hDraws
  · cases hEntries
    have hInside := hBalanced.inside
    rw [Stack.brackets, List.flatMap_singleton, hBare] at hInside
    exact hTraced.enclosed hInside.level_of_nil
  · have hNot := hOwn'.not_isOwn hBalanced.grown.tail hGeometry
    rw [List.cons_append, List.cons.injEq] at hEntries
    rw [← hEntries.2, hOwn.isOwn] at hNot
    cases hNot

------------------------------------------------------------
-- Steps
------------------------------------------------------------

variable {place : Location} {st st' : RenderState α}

/- A geometry that starts on a path leaves its marks. -/
theorem startGeometry
    {f : PathFrame α}
    {frame : Frame α}
    {child? : Option (Frame α)}
    {e : Element}
    (depth : Nat)
    (hKind : kind = .path)
    (hTraced : s.Traced marks st.surface)
    (hTakes : f.Takes e)
    (hStart :
      (FixedPage.startElement env (pageBrush env) (.path f) e).perform
        st = (.ok (frame, child?), st')) :
    ∃ turns,
      TurnsBy env e "Transform" e.attributes turns ∧
        Traces s kind owner below (marks ++ f.geometryMarks e turns)
          ((child?.map fun child => ⟨child, depth⟩).toList
            ++ ⟨frame, owner⟩ :: below) st' := by
  subst hKind
  rw [PathFrame.startElement_eq hTakes.1 hTakes.2,
    Action.perform_bind] at hStart
  rcases hGeometry : (f.startGeometry env e).perform st with
    ⟨fault | ⟨f', child?'⟩, read⟩
  · rw [hGeometry] at hStart
    cases hStart
  rw [hGeometry] at hStart
  cases hStart
  rcases PathFrame.startGeometry_traced hGeometry with
    ⟨hChild, turns, hTurns, hMarks⟩
  refine ⟨turns, hTurns, ?_⟩
  cases child? with
  | none =>
      exact own (.element rfl rfl) (.of_false rfl) (hTraced.trans hMarks)
  | some child =>
      rcases hChild child rfl with ⟨g, rfl⟩
      exact own (.geometry rfl) (.of_false rfl) (hTraced.trans hMarks)

/-
  Unless it is the geometry of a path, an element that starts
  inside of the element leaves no marks.
-/
theorem startOther
    {top frame : Frame α}
    {child? : Option (Frame α)}
    {e : Element}
    {inner depth : Nat}
    {rest : List (Entry α)}
    (hOwn : Own kind owner below (⟨top, inner⟩ :: rest))
    (hMasked : Masked marks (⟨top, inner⟩ :: rest))
    (hTraced : s.Traced marks st.surface)
    (hOther : ∀ f, top = .path f → ¬ f.Takes e)
    (hStart :
      (FixedPage.startElement env (pageBrush env) top e).perform st =
        (.ok (frame, child?), st')) :
    Traces s kind owner below marks
      ((child?.map fun child => ⟨child, depth⟩).toList
        ++ ⟨frame, inner⟩ :: rest) st' := by
  have hOwn' := hOwn.replace (startElement_kinds hStart).1
  have hMarks := hOwn.marks
  have hOutcome :=
    startElement_started env
      (fun key => (pageBrush_onLevel env key).weaken) e top st
  rw [hStart] at hOutcome
  have hStarted :
      top.Started OnLevel env.options.maxVisualDepth st frame child?
        st' := hOutcome
  have hLevel :
      OnLevel top.kind.turnsEarly st st' →
        s.Traced marks st'.surface := by
    intro hState
    cases hEarly : top.kind.turnsEarly with
    | false =>
        rw [hEarly] at hState
        exact hTraced.enclosed hState
    | true =>
        have hPath : top.kind = .path := by
          revert hEarly
          cases top.kind <;> simp [FrameKind.turnsEarly]
        rcases Frame.eq_path_of_kind hPath with ⟨f, rfl⟩
        have hSame :
            Action.Keeps Eq
              (FixedPage.startElement env (pageBrush env) (.path f) e) :=
          .bind (f.startChild_keeps e (hOther f rfl)) fun _ => .pure _
        have hEq : st = st' := by
          have hAt := hSame st
          rwa [hStart] at hAt
        rwa [← hEq]
  have hMasked' :
      frame.outline.inMask = top.outline.inMask →
        Masked marks (⟨frame, inner⟩ :: rest) := by
    intro hSame first hFirst hIn
    cases hFirst
    exact hMasked ⟨top, inner⟩ rfl (hSame ▸ hIn)
  cases hStarted with
  | steady hSame hState =>
      exact
        own hOwn' (hMasked' (congrArg FrameOutline.inMask hSame))
          (hLevel hState)
  | loaded hKind _ _ =>
      rw [Entry.frame, hKind] at hMarks
      cases hMarks
  | @bare _ child _ hSame hBears hBare hKind hState =>
      have hGeometry : child.kind ≠ .geometry := by
        intro hIs
        rcases Frame.eq_path_of_bears (hIs ▸ hBears) with ⟨f, rfl⟩
        rcases f.startElement_gives e _ st st' hStart with
          ⟨f', rfl, hGiven⟩
        cases hGiven with
        | figures hTakes _ _ => exact hOther f rfl hTakes
        | other _ _ hKinds => exact hKinds child rfl hIs
      refine
        bare hOwn' (hMasked' (congrArg FrameOutline.inMask hSame))
          (hLevel hState) hBare ?_
      revert hKind hGeometry
      cases child.kind <;> decide
  | drawing hSame _ hOpened =>
      exact
        drawing hOwn' (hMasked' (congrArg FrameOutline.inMask hSame))
          hTraced hOpened
  | visual v hKind _ =>
      rw [Entry.frame, hKind] at hMarks
      cases hMarks
  | resources _ hOutline =>
      exact
        bare hOwn' (hMasked' (by rw [hOutline])) hTraced rfl (by simp)

/- An element that starts leaves marks if the path is given it. -/
theorem start
    {stack : Stack α}
    {top frame : Frame α}
    {child? : Option (Frame α)}
    {inner : Nat}
    {rest : List (Entry α)}
    {name : String}
    {attributes : List Attribute}
    (depth : Nat)
    (hEntries : stack.entries = ⟨top, inner⟩ :: rest)
    (hTraces :
      Traces s kind owner below marks (⟨top, inner⟩ :: rest) st)
    (hStart :
      (FixedPage.startElement env (pageBrush env) top
        ⟨place, name, attributes⟩).perform st =
          (.ok (frame, child?), st')) :
    ∃ later,
      stack.Marks env below.length place st (.startTag name attributes)
          later ∧
        Traces s kind owner below (marks ++ later)
          ((child?.map fun child => ⟨child, depth⟩).toList
            ++ ⟨frame, inner⟩ :: rest) st' := by
  rcases hTraces with
    ⟨root, above, own', base, hAbove, hOwn, hMasked, hTraced,
      hGeometry, hVisual, hBalanced⟩
  cases above with
  | nil =>
      rw [List.nil_append] at hAbove
      subst hAbove
      have hNow := hTraced.enclosed hBalanced.inside.level_of_nil
      by_cases hPath :
          ∃ f, top = .path f ∧ f.Takes ⟨place, name, attributes⟩
      · rcases hPath with ⟨f, rfl, hTakes⟩
        cases hOwn with
        | element hKind _ =>
            rcases startGeometry depth hKind.symm hNow hTakes hStart
              with ⟨turns, hTurns, hNext⟩
            exact ⟨_, .geometry hEntries rfl hTakes hTurns, hNext⟩
      · have hOther :
            ∀ f, top = .path f →
              ¬ f.Takes ⟨place, name, attributes⟩ :=
          fun f hIs hTakes => hPath ⟨f, hIs, hTakes⟩
        refine ⟨[], .start ?_, ?_⟩
        · intro f owner' below' hTop _
          rw [hEntries] at hTop
          cases hTop
          exact hOther f rfl
        · rw [List.append_nil]
          exact startOther hOwn hMasked hNow hOther hStart
  | cons first above =>
      rw [List.cons_append] at hAbove
      cases hAbove
      refine ⟨[], .start ?_, ?_⟩
      · intro f owner' below' hTop hHeight
        rw [hEntries] at hTop
        cases hTop
        have hLength := hOwn.length_lt
        rw [List.length_append] at hHeight
        omega
      · have hInv :=
          (balanced_invariant env
            (fun key => (pageBrush_onLevel env key).weaken) root
            hGeometry hVisual base).start ⟨top, inner⟩ above depth
            ⟨place, name, attributes⟩ st hBalanced
        rw [hStart] at hInv
        rw [List.append_nil]
        exact
          .intro root _ own' base
            (List.append_assoc _ (⟨frame, inner⟩ :: above) own').symm
            hOwn hMasked hTraced hGeometry hVisual hInv

/- A child of the element ends, which leaves its marks. -/
theorem endChild
    {frame : Frame α}
    {inner : Nat}
    {rest : List (Entry α)}
    (hOwn : Own kind owner below (⟨frame, inner⟩ :: rest))
    (hMasked : Masked marks (⟨frame, inner⟩ :: rest))
    (hTraced : s.Traced marks st.surface)
    (name : String)
    (product : Product α) :
    Traces s kind owner below (marks ++ frame.marks name product)
      (⟨(frame.endChild env name product st).1, inner⟩ :: rest)
      (frame.endChild env name product st).2 := by
  refine
    own (hOwn.replace (frame.endChild_kind env name product st)) ?_
      (hTraced.trans
        (frame.endChild_traced env hOwn.marks name product st))
  intro first hFirst hIn
  cases hFirst
  rcases frame.endChild_inMask env hOwn.marks name product st hIn with
    hBefore | hNow
  · exact List.mem_append_left _ (hMasked ⟨frame, inner⟩ rfl hBefore)
  · exact List.mem_append_right _ hNow

/- An element inside of the top frame ends. -/
theorem inside
    {top : Frame α}
    {inner depth : Nat}
    {rest : List (Entry α)}
    {name : String}
    (hOther : inner ≠ depth)
    (hTraces :
      Traces s kind owner below marks (⟨top, inner⟩ :: rest) st) :
    Traces s kind owner below
      (marks ++
        Stack.endMarks env below.length name
          ⟨⟨top, inner⟩ :: rest, depth⟩ st)
      (⟨(top.endChild env name .none st).1, inner⟩ :: rest)
      (top.endChild env name .none st).2 := by
  rcases hTraces with
    ⟨root, above, own', base, hAbove, hOwn, hMasked, hTraced,
      hGeometry, hVisual, hBalanced⟩
  rw [endMarks]
  dsimp only
  rw [if_pos hOther]
  cases above with
  | nil =>
      rw [List.nil_append] at hAbove
      subst hAbove
      have hNow := hTraced.enclosed hBalanced.inside.level_of_nil
      rw [if_pos hOwn.isOwn]
      exact endChild hOwn hMasked hNow name .none
  | cons first above =>
      rw [List.cons_append] at hAbove
      cases hAbove
      have hNot := hOwn.not_isOwn hBalanced.grown hGeometry
      rw [← List.cons_append, hNot, if_neg Bool.false_ne_true,
        List.append_nil]
      have hInv :=
        (balanced_invariant env
          (fun key => (pageBrush_onLevel env key).weaken) root
          hGeometry hVisual base).child ⟨top, inner⟩ above name st
          hBalanced
      exact
        .intro root (_ :: above) own' base rfl hOwn hMasked hTraced
          hGeometry hVisual hInv

/- The top frame ends and hands its product down. -/
theorem finished
    {top parent : Frame α}
    {inner depth : Nat}
    {rest : List (Entry α)}
    {name : String}
    {product : Product α}
    {done : RenderState α}
    (hStays : below.length < rest.length + 1)
    (hDone : (top.finish env).perform st = (.ok product, done))
    (hTraces :
      Traces s kind owner below marks
        (⟨top, depth⟩ :: ⟨parent, inner⟩ :: rest) st) :
    Traces s kind owner below
      (marks ++
        Stack.endMarks env below.length name
          ⟨⟨top, depth⟩ :: ⟨parent, inner⟩ :: rest, depth⟩ st)
      (⟨(parent.endChild env name product done).1, inner⟩ :: rest)
      (parent.endChild env name product done).2 := by
  rcases hTraces with
    ⟨root, above, own', base, hAbove, hOwn, hMasked, hTraced,
      hGeometry, hVisual, hBalanced⟩
  have hInv :=
    balanced_invariant env
      (fun key => (pageBrush_onLevel env key).weaken) root
      hGeometry hVisual base
  rw [endMarks]
  dsimp only
  rw [if_neg (not_not.mpr rfl), hDone]
  dsimp only
  rcases above with _ | ⟨first, _ | ⟨next, above⟩⟩
  · rw [List.nil_append] at hAbove
    subst hAbove
    have hNow := hTraced.enclosed hBalanced.inside.level_of_nil
    cases hOwn with
    | element =>
        exact absurd hStays (Nat.lt_irrefl _)
    | @geometry f g _ hKind =>
        have hParent :
            Own kind owner below (⟨.path f, owner⟩ :: below) :=
          .element hKind.symm (by rw [hKind]; rfl)
        cases hDone
        rw [if_pos hParent.isOwn]
        exact endChild hParent (.of_false rfl) hNow name _
  · cases hAbove
    have hLevel :=
      (hInv.root ⟨top, depth⟩ st done product hBalanced hDone).inside
    have hNow := hTraced.enclosed hLevel.level_of_nil
    rw [if_pos hOwn.isOwn]
    exact endChild hOwn hMasked hNow name product
  · simp only [List.cons_append, List.cons.injEq] at hAbove
    rcases hAbove with ⟨rfl, rfl, rfl⟩
    have hNot := hOwn.not_isOwn hBalanced.grown.tail hGeometry
    rw [List.cons_append] at hNot
    rw [hNot, if_neg Bool.false_ne_true, List.append_nil]
    exact
      .intro root (_ :: above) own' base rfl hOwn hMasked hTraced
        hGeometry hVisual
        (hInv.hand ⟨top, depth⟩ ⟨parent, inner⟩ above name st done
          product hBalanced hDone)

/- An event with which the element stays leaves its marks. -/
theorem feed
    {stack stack' : Stack α}
    {event : Event}
    {product? : Option (Product α)}
    (hTraces : Traces s kind owner below marks stack.entries st)
    (hFed :
      stack.feed env (FixedPage.startElement env (pageBrush env)) place
        st event = ⟨.ok product?, stack', st'⟩)
    (hStays : below.length < stack'.entries.length) :
    ∃ later,
      stack.Marks env below.length place st event later ∧
        Traces s kind owner below (marks ++ later) stack'.entries
          st' := by
  cases Stack.takes_of_feed hFed with
  | text => exact ⟨[], .text, by rwa [List.append_nil]⟩
  | @seen _ _ _ depth _ _ _ _ _ hStart =>
      exact start depth rfl hTraces hStart
  | owned hStart => exact start _ rfl hTraces hStart
  | inside hOwner => exact ⟨_, .ended, inside hOwner hTraces⟩
  | finished hDone =>
      exact ⟨_, .ended, finished hStays hDone hTraces⟩
  | left hDone => exact absurd hStays (Nat.not_lt_zero _)

------------------------------------------------------------
-- Figures
------------------------------------------------------------

omit [Scalar α] in
/- What lies below an element does not belong to it. -/
theorem not_isOwn_below
    (below : List (Entry α)) :
    isOwn below.length below = false := by
  rcases below with _ | ⟨⟨frame, inner⟩, _ | ⟨next, rest⟩⟩
  · rfl
  · cases frame <;> simp [isOwn]
  · cases frame <;> simp [isOwn]
    omega

/- A frame that belongs to the element is one of its frames. -/
theorem own_of_isOwn
    {entries : List (Entry α)}
    (hTraces : Traces s kind owner below marks entries st)
    (hIs : isOwn below.length entries = true) :
    Own kind owner below entries := by
  rcases hTraces with
    ⟨root, above, own, base, hAbove, hOwn, -, -, hGeometry, -,
      hBalanced⟩
  cases above with
  | nil =>
      rw [List.nil_append] at hAbove
      rwa [hAbove]
  | cons top above =>
      rw [hAbove, hOwn.not_isOwn hBalanced.grown hGeometry] at hIs
      cases hIs

/- So is one below another frame. -/
theorem own_of_isOwn_below
    {top : Entry α}
    {entries : List (Entry α)}
    (hTraces : Traces s kind owner below marks (top :: entries) st)
    (hIs : isOwn below.length entries = true) :
    Own kind owner below entries := by
  rcases hTraces with
    ⟨root, above, own, base, hAbove, hOwn, -, -, hGeometry, -,
      hBalanced⟩
  rcases above with _ | ⟨first, _ | ⟨next, above⟩⟩
  · rw [List.nil_append] at hAbove
    subst hAbove
    cases hOwn with
    | element =>
        rw [not_isOwn_below] at hIs
        cases hIs
    | geometry hKind => exact .element hKind.symm (by rw [hKind]; rfl)
  · cases hAbove
    exact hOwn
  · simp only [List.cons_append, List.cons.injEq] at hAbove
    rcases hAbove with ⟨rfl, rfl⟩
    have hNot := hOwn.not_isOwn hBalanced.grown.tail hGeometry
    rw [List.cons_append] at hNot
    rw [hNot] at hIs
    cases hIs

/- Only a path leaves the marks of figures. -/
theorem kind_of_figure
    {stack : Stack α}
    {event : Event}
    {later : List (Mark α)}
    {g : GeometryFrame α}
    (hTraces : Traces s kind owner below marks stack.entries st)
    (hMarks : stack.Marks env below.length place st event later)
    (hFigure : .figure g ∈ later) :
    kind = .path := by
  have hTop :
      ∀ {top : Entry α} {rest : List (Entry α)} {name product},
        Own kind owner below (top :: rest) →
          .figure g ∈ top.frame.marks name product →
            kind = .path := by
    intro top rest name product hOwn hMem
    have hGeometry := top.frame.kind_of_figure hMem
    cases hOwn with
    | element hKind hDraws =>
        rw [← hKind, hGeometry] at hDraws
        cases hDraws
    | geometry hKind => exact hKind
  cases hMarks with
  | text => cases hFigure
  | start => cases hFigure
  | geometry hEntries hHeight =>
      have hOwn :=
        hTraces.own_of_isOwn (by rw [hEntries]; simp [isOwn, hHeight])
      rw [hEntries] at hOwn
      cases hOwn with
      | element hKind _ => exact hKind.symm
  | ended =>
      unfold endMarks at hFigure
      rcases hEntries : stack.entries with _ | ⟨top, rest⟩
      · rw [hEntries] at hFigure
        cases hFigure
      rw [hEntries] at hFigure hTraces
      dsimp only at hFigure
      split at hFigure
      · split at hFigure
        · exact hTop (hTraces.own_of_isOwn ‹_›) hFigure
        · cases hFigure
      · split at hFigure
        · split at hFigure
          · exact hTop (hTraces.own_of_isOwn_below ‹_›) hFigure
          · cases hFigure
        · cases hFigure

end Stack.Traces

------------------------------------------------------------
-- Elements that stay
------------------------------------------------------------

/-
  A run takes events while an element that has `height` frames
  below it stays on its stack, and it leaves marks.
-/
inductive Stays
    (env : Environment α)
    (height : Nat)
    (start : Run α)
    (st₀ : RenderState α) :
    List (Mark α) → Run α → RenderState α → Prop
| refl :
    Stays env height start st₀ [] start st₀
| step
    {marks later : List (Mark α)}
    {stack stack' : Stack α}
    {place : Location}
    {event : Event}
    {rest : List Item}
    {product? : Option (Product α)}
    {st st' : RenderState α}
    (hStays :
      Stays env height start st₀ marks
        ⟨.page, stack, some (.ok (place, event) :: rest)⟩ st)
    (hFed :
      stack.feed env (startElement env (pageBrush env)) place st
        event = ⟨.ok product?, stack', st'⟩)
    (hHeight : height < stack'.entries.length)
    (hMarks : stack.Marks env height place st event later) :
    Stays env height start st₀ (marks ++ later)
      ⟨.page, stack', some rest⟩ st'

/- Whatever a run takes while an element stays leaves its marks. -/
theorem Stays.traces
    {env : Environment α}
    {s : Surface α}
    {kind : FrameKind}
    {owner : Nat}
    {below : List (Entry α)}
    {marks known : List (Mark α)}
    {start run : Run α}
    {st₀ st : RenderState α}
    (hStays : Stays env below.length start st₀ known run st)
    (hTraces :
      Stack.Traces s kind owner below marks start.stack.entries st₀) :
    ∃ later,
      Stays env below.length start st₀ later run st ∧
        Stack.Traces s kind owner below (marks ++ later)
          run.stack.entries st := by
  induction hStays with
  | refl => exact ⟨[], .refl, by rwa [List.append_nil]⟩
  | step _ hFed hHeight _ ih =>
      rcases ih with ⟨later, hStays, hBefore⟩
      rcases hBefore.feed hFed hHeight with ⟨last, hMarks, hNext⟩
      exact
        ⟨later ++ last, hStays.step hFed hHeight hMarks,
          by rwa [← List.append_assoc]⟩

/- The start of an element, and the surface before its save. -/
structure ElementStart (α : Type) where
  element : Element
  frame : Frame α
  turns : List (Matrix α)
  clip? : Option String
  before : Surface α

namespace ElementStart

omit [Scalar α]

/- The marks that the start leaves. -/
def marks
    (o : ElementStart α) : List (Mark α) :=
  startMarks o.turns o.clip? o.frame.outline

/- The kind of the element. -/
def kind
    (o : ElementStart α) : FrameKind :=
  o.frame.kind

end ElementStart

/-
  A run under way has an element that draws on its stack. It has
  left marks when it started, and others since.
-/
inductive OpenElement
    (env : Environment α)
    (first : Run α)
    (st₀ : RenderState α)
    (outer : List (Run α))
    (owner : Nat)
    (below : List (Entry α)) :
    ElementStart α → List (Mark α) → Run α → RenderState α → Prop
| intro
    {frame : Frame α}
    {turns : List (Matrix α)}
    {clip? : Option String}
    {depth : Nat}
    {stack : Stack α}
    {place : Location}
    {name : String}
    {attributes : List Attribute}
    {rest : List Item}
    {product? : Option (Product α)}
    {later : List (Mark α)}
    {run : Run α}
    {st st' now : RenderState α}
    (hActive :
      Active env first st₀
        (⟨.page, stack,
          some (.ok (place, .startTag name attributes) :: rest)⟩
            :: outer) st)
    (hFed :
      stack.feed env (startElement env (pageBrush env)) place st
        (.startTag name attributes) =
          ⟨.ok product?, ⟨⟨frame, owner⟩ :: below, depth⟩, st'⟩)
    (hBegun :
      frame.Begun env ⟨place, name, attributes⟩ turns clip? st st')
    (hStays :
      Stays env below.length
        ⟨.page, ⟨⟨frame, owner⟩ :: below, depth⟩, some rest⟩ st' later
        run now) :
    OpenElement env first st₀ outer owner below
      ⟨⟨place, name, attributes⟩, frame, turns, clip?, st.surface⟩
      later run now

/- An element lies somewhere on the stack. -/
def Stack.HasElement
    (kind : FrameKind)
    (owner : Nat)
    (below : List (Entry α))
    (stack : Stack α) : Prop :=
  ∃ above frame,
    stack.entries = above ++ ⟨frame, owner⟩ :: below ∧
      frame.kind = kind

omit [Scalar α] in
/- There are more frames than below the element. -/
theorem Stack.HasElement.length_lt
    {kind : FrameKind}
    {owner : Nat}
    {below : List (Entry α)}
    {stack : Stack α}
    (hHas : stack.HasElement kind owner below) :
    below.length < stack.entries.length := by
  rcases hHas with ⟨above, frame, hEntries, -⟩
  rw [hEntries, List.length_append, List.length_cons]
  omega

omit [Scalar α] in
/- The path under a geometry lies on the stack. -/
theorem Stack.OnGeometry.hasPath
    {g : GeometryFrame α}
    {f : PathFrame α}
    {inner owner : Nat}
    {below : List (Entry α)}
    {stack : Stack α}
    (hOn : stack.OnGeometry g inner (⟨.path f, owner⟩ :: below)) :
    stack.HasElement .path owner below := by
  cases hOn with
  | top => exact ⟨[_], .path f, rfl, rfl⟩
  | turned => exact ⟨[_, _], .path f, rfl, rfl⟩

/-
  An element on the stack after an event was there before, or
  else it has just started.
-/
theorem Stack.HasElement.before
    {env : Environment α}
    {kind : FrameKind}
    {owner : Nat}
    {below : List (Entry α)}
    {stack stack' : Stack α}
    {place : Location}
    {event : Event}
    {product? : Option (Product α)}
    {st st' : RenderState α}
    (hDraws : kind.draws = true)
    (hHas : stack'.HasElement kind owner below)
    (hTakes :
      Takes env (FixedPage.startElement env (pageBrush env)) place
        stack st event product? stack' st') :
    stack.HasElement kind owner below ∨
      ∃ name attributes frame turns clip? depth,
        event = .startTag name attributes ∧
          stack' = ⟨⟨frame, owner⟩ :: below, depth⟩ ∧
          frame.kind = kind ∧
          frame.Begun env ⟨place, name, attributes⟩ turns clip? st
            st' := by
  rcases hHas with ⟨above, frame, hEntries, hKind⟩
  cases hTakes with
  | text => exact .inl ⟨above, frame, hEntries, hKind⟩
  | @seen top _ inner depth rest _ _ _ _ hStart =>
      left
      cases above with
      | nil =>
          cases hEntries
          exact
            ⟨[], top, rfl, (startElement_kinds hStart).1 ▸ hKind⟩
      | cons _ above =>
          cases hEntries
          exact ⟨⟨top, inner⟩ :: above, frame, rfl, hKind⟩
  | @owned top _ _ inner depth rest name attributes _ _ hStart =>
      rcases above with _ | ⟨first, _ | ⟨second, above⟩⟩
      · cases hEntries
        rcases startElement_begun hStart (hKind ▸ hDraws) with
          ⟨turns, clip?, hBegun⟩
        exact
          .inr ⟨name, attributes, frame, turns, clip?, _, rfl, rfl,
            hKind, hBegun⟩
      · cases hEntries
        exact
          .inl ⟨[], top, rfl, (startElement_kinds hStart).1 ▸ hKind⟩
      · cases hEntries
        exact .inl ⟨⟨top, inner⟩ :: above, frame, rfl, hKind⟩
  | @inside top inner depth rest name _ hOwner =>
      left
      have hSame := top.endChild_kind env name .none st
      generalize top.endChild env name .none st = received
        at hEntries hSame
      rcases received with ⟨frame', now⟩
      cases above with
      | nil =>
          cases hEntries
          exact ⟨[], top, rfl, hSame ▸ hKind⟩
      | cons _ above =>
          cases hEntries
          exact ⟨⟨top, inner⟩ :: above, frame, rfl, hKind⟩
  | @finished top parent inner depth rest name product _ done hDone =>
      left
      have hSame := parent.endChild_kind env name product done
      generalize parent.endChild env name product done = received
        at hEntries hSame
      rcases received with ⟨frame', now⟩
      cases above with
      | nil =>
          cases hEntries
          exact ⟨[⟨top, depth⟩], parent, rfl, hSame ▸ hKind⟩
      | cons _ above =>
          cases hEntries
          exact
            ⟨⟨top, depth⟩ :: ⟨parent, inner⟩ :: above, frame, rfl,
              hKind⟩
  | left hDone => simp at hEntries

omit [Scalar α] in
/- A page starts without an element that draws. -/
theorem Run.ofPage_no_element
    (items : List Item)
    {kind : FrameKind}
    (hDraws : kind.draws = true)
    (owner : Nat)
    (below : List (Entry α)) :
    ¬ (Run.ofPage items).stack.HasElement kind owner below := by
  rintro ⟨_ | ⟨_, above⟩, frame, hEntries, hKind⟩
  · cases hEntries
    rw [← hKind] at hDraws
    cases hDraws
  · simp [Run.ofPage, Stack.ofPart] at hEntries

omit [Scalar α] in
/- An element that starts leaves no figure. -/
theorem ElementStart.figure_not_mem
    (o : ElementStart α)
    (g : GeometryFrame α) :
    .figure g ∉ o.marks := by
  unfold marks startMarks FrameOutline.marks
  cases o.frame.outline.inOpacity <;>
    cases o.frame.outline.inMask <;> simp

/-
  Whenever an element that draws is on the stack of a run under
  way, it is open there. Since its save it has left its marks,
  and the frames above its own hold their brackets open.
-/
theorem Active.openElement
    {env : Environment α}
    {first : Run α}
    {st₀ st : RenderState α}
    {kind : FrameKind}
    {outer : List (Run α)}
    {owner : Nat}
    {below : List (Entry α)}
    {stack : Stack α}
    {items : List Item}
    (hDraws : kind.draws = true)
    (hNone :
      ∀ (owner : Nat) (below : List (Entry α)),
        ¬ first.stack.HasElement kind owner below)
    (hActive :
      Active env first st₀ (⟨.page, stack, some items⟩ :: outer) st)
    (hHas : stack.HasElement kind owner below) :
    ∃ o later,
      o.kind = kind ∧
        OpenElement env first st₀ outer owner below o later
          ⟨.page, stack, some items⟩ st ∧
        Stack.Traces o.before.save kind owner below (o.marks ++ later)
          stack.entries st ∧
        ∀ g, .figure g ∈ later → kind = .path := by
  refine
    hActive.page_induction
      (Q := fun outer stack items st =>
        stack.HasElement kind owner below →
          ∃ o later,
            o.kind = kind ∧
              OpenElement env first st₀ outer owner below o later
                ⟨.page, stack, some items⟩ st ∧
              Stack.Traces o.before.save kind owner below
                (o.marks ++ later) stack.entries st ∧
              ∀ g, .figure g ∈ later → kind = .path)
      ?first ?brush ?step hHas
  case first =>
    intro stack items hIs hHas
    rw [hIs] at hNone
    exact absurd hHas (hNone owner below)
  case brush =>
    rintro outer items st ⟨_ | ⟨_, above⟩, frame, hEntries, hKind⟩
    · cases hEntries
      rw [← hKind] at hDraws
      cases hDraws
    · simp [Stack.ofOpenElement] at hEntries
  case step =>
    intro stack stack' place event rest product? outer st st' hRun hFed
      hOpen hHas
    rcases hHas.before hDraws (Stack.takes_of_feed hFed) with
      hBefore | ⟨name, attributes, frame, turns, clip?, depth, rfl,
        rfl, hKind, hBegun⟩
    · rcases hOpen hBefore with
        ⟨o, later, hKind, hOpen, hTraces, hFigure⟩
      rcases hTraces.feed hFed hHas.length_lt with
        ⟨marks, hMarks, hNext⟩
      refine ⟨o, later ++ marks, hKind, ?_, ?_, ?_⟩
      · cases hOpen with
        | intro hStarted hFirstFed hBegun hStays =>
            exact
              .intro hStarted hFirstFed hBegun
                (.step hStays hFed hHas.length_lt hMarks)
      · rwa [← List.append_assoc]
      · intro g hMem
        rcases List.mem_append.mp hMem with hEarlier | hNow
        · exact hFigure g hEarlier
        · exact hTraces.kind_of_figure hMarks hNow
    · refine
        ⟨⟨⟨place, name, attributes⟩, frame, turns, clip?, st.surface⟩,
          [], hKind, .intro hRun hFed hBegun .refl, ?_, by simp⟩
      rw [List.append_nil]
      exact
        .own (.element hKind hDraws) (.start turns clip?) hBegun.traced

section

variable {env : Environment α} {items : List Item}
variable {st₀ st : RenderState α} {outer : List (Run α)}

/- An element on top of the stack has left its marks. -/
theorem Active.openElement_top
    (frame : Frame α)
    {owner depth : Nat}
    {below : List (Entry α)}
    {left : List Item}
    (hDraws : frame.kind.draws = true)
    (hActive :
      Active env (.ofPage items) st₀
        (⟨.page, ⟨⟨frame, owner⟩ :: below, depth⟩, some left⟩ :: outer)
        st) :
    ∃ o later,
      o.kind = frame.kind ∧
        OpenElement env (.ofPage items) st₀ outer owner below o later
          ⟨.page, ⟨⟨frame, owner⟩ :: below, depth⟩, some left⟩ st ∧
        o.before.save.Traced (o.marks ++ later) st.surface ∧
        (∀ g, .figure g ∈ later → frame.kind = .path) ∧
        (frame.outline.inMask = true →
          .group ∈ o.marks ++ later) := by
  rcases hActive.openElement hDraws
      (Run.ofPage_no_element items hDraws) ⟨[], frame, rfl, rfl⟩ with
    ⟨o, later, hKind, hOpen, hTraces, hFigure⟩
  rcases hTraces.traced (.element rfl hDraws) with ⟨hTraced, hMasked⟩
  exact
    ⟨o, later, hKind, hOpen, hTraced, hFigure, hMasked _ rfl⟩

/- A geometry that is open lies on a path. -/
theorem OpenFigures.onPath
    {first : Run α}
    {owner : Nat}
    {below : List (Entry α)}
    {f' : PathFrame α}
    {geometries : List Element}
    {run : Run α}
    (hOpen :
      OpenFigures env first st₀ outer owner below f' geometries run
        st) :
    ∃ f pathOwner under, below = ⟨.path f, pathOwner⟩ :: under := by
  rcases hOpen with ⟨-, hStarts, hFed, hOnFirst, -⟩
  cases Stack.takes_of_feed hFed with
  | seen hStart => cases (hStarts.perform hStart).1
  | owned hStart =>
      have hPath := (startElement_kinds hStart).1
      cases (hStarts.perform hStart).1
      cases hOnFirst
      rcases Frame.eq_path_of_kind hPath with ⟨f, rfl⟩
      exact ⟨f, _, _, rfl⟩

/- A path has left its marks under a geometry of its own. -/
theorem Active.openElement_geometry
    {stack : Stack α}
    {left : List Item}
    {g : GeometryFrame α}
    {f : PathFrame α}
    {inner owner : Nat}
    {below : List (Entry α)}
    (hActive :
      Active env (.ofPage items) st₀
        (⟨.page, stack, some left⟩ :: outer) st)
    (hOn : stack.OnGeometry g inner (⟨.path f, owner⟩ :: below)) :
    ∃ o later,
      o.kind = .path ∧
        OpenElement env (.ofPage items) st₀ outer owner below o later
          ⟨.page, stack, some left⟩ st ∧
        o.before.save.Traced (o.marks ++ later) st.surface := by
  rcases hActive.openElement rfl (Run.ofPage_no_element items rfl)
      hOn.hasPath with
    ⟨o, later, hKind, hOpen, hTraces, -⟩
  refine ⟨o, later, hKind, hOpen, ?_⟩
  cases hOn with
  | top => exact (hTraces.traced (.geometry rfl)).1
  | turned => exact hTraces.traced_bare (.geometry rfl) rfl rfl

/- A figure that ends is one of a geometry on a path. -/
theorem Active.endsFigure_onPath
    {stack : Stack α}
    {left : List Item}
    {g : GeometryFrame α}
    (hActive :
      Active env (.ofPage items) st₀
        (⟨.page, stack, some left⟩ :: outer) st)
    (hEnds : stack.EndsFigure g) :
    ∃ f inner owner below,
      stack.OnGeometry g inner (⟨.path f, owner⟩ :: below) := by
  rcases hEnds.onGeometry with ⟨inner, under, hOn⟩
  rcases hActive.openFigures (Run.ofPage_counted items st₀)
      (Run.ofPage_no_geometry items) (Run.ofPage_no_path items) hOn with
    ⟨f', geometries, hFigures⟩
  rcases hFigures.onPath with ⟨f, owner, below, rfl⟩
  exact ⟨f, inner, owner, below, hOn⟩

end

end

end FixedPage
