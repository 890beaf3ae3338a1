import FixedPage.Proofs.Path.Trace
import FixedPage.Proofs.Resource.Clauses
import FixedPage.Proofs.Resource.Inline
import FixedPage.Render.Page

/-
  This file compares what a geometry draws inside a path with
  what it draws when it is stored. A stored geometry draws its
  segments whether they are stroked or not, and is not accepted
  if one of them has no points.

  Main declarations:
    * `FigureShape.stroke`
    * `Follows`
    * `calls_figures`
    * `GeometryMarkup.stored_outline`
-/

namespace FixedPage

open Markup PathData FixedPage.Geometry

variable {α : Type} [Scalar α]

------------------------------------------------------------
-- Groups of points
------------------------------------------------------------

/- Adds a group of points to the path of a figure. -/
def PathBuilder.addGroup
    (b : PathBuilder α) : PathData.Group α → PathBuilder α
| .line p => b.push (.lineTo p)
| .cubic p₁ p₂ p₃ => b.push (.curveTo p₁ p₂ p₃)
| .quadratic q p => b.quadTo q p
| _ => b

/- Adding a group before others is adding it to the path. -/
theorem foldl_addGroup_cons
    (groups? : Option (List (PathData.Group α)))
    (g : PathData.Group α)
    (b : PathBuilder α) :
    (groups?.map (g :: ·)).map (·.foldl PathBuilder.addGroup b) =
      groups?.map (·.foldl PathBuilder.addGroup (b.addGroup g)) := by
  rw [Option.map_map]
  rfl

/- The points of a segment are added group by group. -/
theorem addPoints?_groups?
    (kind : SegmentKind)
    (ps : List (Point α))
    (b : PathBuilder α) :
    b.addPoints? kind.element ps =
      (kind.groups? ps).map (·.foldl PathBuilder.addGroup b) := by
  fun_induction SegmentKind.groups? kind ps generalizing b with
  | case1 kind => cases kind <;> rfl
  | case2 p rest ih =>
      rw [foldl_addGroup_cons, ← ih]
      rfl
  | case3 p₁ p₂ p₃ rest ih =>
      rw [foldl_addGroup_cons, ← ih]
      rfl
  | case4 q p rest ih =>
      rw [foldl_addGroup_cons, ← ih]
      rfl
  | case5 ps kind hNil hLine hCubic hQuadratic =>
      cases kind with
      | line =>
          cases ps with
          | nil => exact absurd rfl hNil
          | cons p rest => exact (hLine p rest rfl rfl).elim
      | cubic =>
          rcases ps with _ | ⟨p₁, _ | ⟨p₂, _ | ⟨p₃, rest⟩⟩⟩
          · exact absurd rfl hNil
          · rfl
          · rfl
          · exact (hCubic p₁ p₂ p₃ rest rfl rfl).elim
      | quadratic =>
          rcases ps with _ | ⟨q, _ | ⟨p, rest⟩⟩
          · exact absurd rfl hNil
          · rfl
          · exact (hQuadratic q p rest rfl rfl).elim

------------------------------------------------------------
-- Following a figure
------------------------------------------------------------

/-
  The path of a figure follows the clauses that were taken since
  its start: it has the segments that they draw and ends at the
  current point.
-/
structure Follows
    (before now : List (Clause α))
    (b : PathBuilder α) : Prop where
  current : b.currentPoint? = some (currentPoint now)
  drawn : callsUpTo now = callsUpTo before ++ b.segments.map .draw

/- A figure starts with a move to its first point. -/
theorem follows_start
    (before : List (Clause α))
    (p : Point α) :
    Follows before (absolute (.move p) :: before)
      (PathBuilder.empty.push (.moveTo p)) :=
  ⟨rfl, rfl⟩

section

variable {before now : List (Clause α)} {b : PathBuilder α}

/- A segment that a clause draws is added. -/
theorem Follows.push
    {c : Clause α}
    {s : Segment α}
    (hFollows : Follows before now b)
    (hCalls : callsOf now c = [.draw s])
    (hEnd :
      (b.push s).currentPoint? = some (currentPoint (c :: now))) :
    Follows before (c :: now) (b.push s) := by
  refine ⟨hEnd, ?_⟩
  rw [callsUpTo, hFollows.drawn, hCalls]
  simp [PathBuilder.segments, PathBuilder.push]

/- A line is followed. -/
theorem Follows.line
    (hFollows : Follows before now b)
    (p : Point α) :
    Follows before (absolute (.line p) :: now)
      (b.addGroup (.line p)) :=
  hFollows.push rfl rfl

/- A cubic curve is followed. -/
theorem Follows.cubic
    (hFollows : Follows before now b)
    (p₁ p₂ p₃ : Point α) :
    Follows before (absolute (.cubic p₁ p₂ p₃) :: now)
      (b.addGroup (.cubic p₁ p₂ p₃)) :=
  hFollows.push rfl rfl

section

variable [ExactScalar α]

open ExactScalar

/- Both ways to write two thirds agree if nothing is rounded. -/
theorem twoThirds_eq
    (p q : Point α) :
    PathBuilder.twoThirds p q = Pen.twoThirds q p := by
  unfold PathBuilder.twoThirds Pen.twoThirds
  dsimp only
  congr 1 <;>
    · apply value_injective
      simp only [value_add, value_sub, value_mul, value_div,
        value_natCast, value_one]
      push_cast
      ring

/- A quadratic curve is followed. -/
theorem Follows.quadratic
    (hFollows : Follows before now b)
    (q p : Point α) :
    Follows before (absolute (.quadratic q p) :: now)
      (b.addGroup (.quadratic q p)) := by
  refine hFollows.push ?_ rfl
  rw [hFollows.current, Option.getD_some, twoThirds_eq, twoThirds_eq]
  rfl

/- The groups of points of a segment are followed. -/
theorem Follows.groups
    {kind : SegmentKind}
    {ps : List (Point α)}
    {gs : List (PathData.Group α)}
    (hFollows : Follows before now b)
    (hDivided : kind.groups? ps = some gs) :
    Follows before ((gs.map absolute).reverse ++ now)
      (gs.foldl PathBuilder.addGroup b) := by
  fun_induction SegmentKind.groups? kind ps
    generalizing now b gs with
  | case1 kind =>
      cases hDivided
      exact hFollows
  | case2 p rest ih =>
      rcases Option.map_eq_some_iff.mp hDivided with ⟨more, hMore, rfl⟩
      simpa using ih (hFollows.line p) hMore
  | case3 p₁ p₂ p₃ rest ih =>
      rcases Option.map_eq_some_iff.mp hDivided with ⟨more, hMore, rfl⟩
      simpa using ih (hFollows.cubic p₁ p₂ p₃) hMore
  | case4 q p rest ih =>
      rcases Option.map_eq_some_iff.mp hDivided with ⟨more, hMore, rfl⟩
      simpa using ih (hFollows.quadratic q p) hMore
  | case5 => cases hDivided

end

end

------------------------------------------------------------
-- Stroked figures
------------------------------------------------------------

omit [Scalar α] in
/- A segment that is stroked. -/
def SegmentShape.stroke
    (s : SegmentShape α) : SegmentShape α :=
  { s with stroked := true }

omit [Scalar α] in
/- A figure whose segments are all stroked. -/
def FigureShape.stroke
    (f : FigureShape α) : FigureShape α :=
  { f with segments := f.segments.map SegmentShape.stroke }

/- A segment that is stroked adds its groups of points. -/
theorem add?_stroke
    (s : SegmentShape α)
    (b : PathBuilder α) :
    SegmentShape.add? b s.stroke =
      (s.kind.groups? s.points).map
        (·.foldl PathBuilder.addGroup b) := by
  unfold SegmentShape.add? SegmentShape.stroke
  rw [if_pos rfl]
  exact addPoints?_groups? s.kind s.points b

section

variable [ExactScalar α]

/- The clauses of segments draw them as if they were stroked. -/
theorem Follows.segments
    {before now : List (Clause α)}
    {b : PathBuilder α}
    {segments : List (SegmentShape α)}
    {css : List (List (Clause α))}
    (hFollows : Follows before now b)
    (hClauses : segments.mapM SegmentShape.clauses? = some css) :
    ∃ b',
      (segments.map SegmentShape.stroke).foldlM SegmentShape.add? b =
          some b' ∧
        Follows before (css.flatten.reverse ++ now) b' := by
  induction segments generalizing now b css with
  | nil =>
      rw [List.mapM_nil] at hClauses
      cases hClauses
      exact ⟨b, rfl, hFollows⟩
  | cons s segments ih =>
      rcases mapM_cons_eq_some.mp hClauses with
        ⟨cs, rest, hFirst, hRest, rfl⟩
      rcases SegmentShape.clauses?_eq_some.mp hFirst with
        ⟨gs, hDivided, _, rfl⟩
      rcases ih (hFollows.groups hDivided) hRest with
        ⟨b', hAdd, hAll⟩
      refine ⟨b', ?_, ?_⟩
      · rw [List.map_cons, List.foldlM_cons, add?_stroke, hDivided]
        exact hAdd
      · simpa [List.append_assoc] using hAll

/- The clauses of a figure draw it as if it were stroked. -/
theorem calls_figure
    {f : FigureShape α}
    {cs : List (Clause α)}
    (hClauses : f.clauses? = some cs) :
    ∃ b,
      f.stroke.builder? = some b ∧
        ∀ before,
          callsUpTo (cs.reverse ++ before) =
            callsUpTo before ++ b.segments.map .draw := by
  rcases Option.map_eq_some_iff.mp hClauses with ⟨css, hAll, rfl⟩
  have hFollows :=
    fun before => (follows_start before f.start).segments hAll
  rcases hFollows [] with ⟨b, hOpen, _⟩
  refine ⟨if f.closed then b.push .close else b, ?_, ?_⟩
  · unfold FigureShape.builder? FigureShape.open?
    exact congrArg (Option.map _) hOpen
  · intro before
    rcases hFollows before with ⟨b', hOpen', hDrawn⟩
    cases hOpen.symm.trans hOpen'
    cases f.closed with
    | false => simpa using hDrawn.drawn
    | true =>
        have hCalls := hDrawn.drawn
        simp [callsUpTo, callsOf, absolute, PathBuilder.push,
          PathBuilder.segments] at hCalls ⊢
        simp [hCalls]

/- The clauses of figures draw them as if they were stroked. -/
theorem calls_figures
    {figures : List (FigureShape α)}
    {css : List (List (Clause α))}
    (hClauses : figures.mapM FigureShape.clauses? = some css) :
    ∃ bs,
      (figures.map FigureShape.stroke).mapM FigureShape.builder? =
          some bs ∧
        ∀ before,
          callsUpTo (css.flatten.reverse ++ before) =
            callsUpTo before
              ++ (bs.flatMap PathBuilder.segments).map .draw := by
  induction figures generalizing css with
  | nil =>
      rw [List.mapM_nil] at hClauses
      cases hClauses
      exact ⟨[], rfl, fun before => by simp⟩
  | cons f figures ih =>
      rcases mapM_cons_eq_some.mp hClauses with
        ⟨cs, rest, hFirst, hRest, rfl⟩
      rcases calls_figure hFirst with ⟨b, hBuilder, hDraws⟩
      rcases ih hRest with ⟨bs, hBuilders, hMore⟩
      refine
        ⟨b :: bs,
          mapM_cons_eq_some.mpr ⟨b, bs, hBuilder, hBuilders, rfl⟩, ?_⟩
      intro before
      rw [List.flatten_cons, List.reverse_append, List.append_assoc,
        hMore, hDraws, List.flatMap_cons, List.map_append,
        List.append_assoc]

end

------------------------------------------------------------
-- Counting segments
------------------------------------------------------------

/- Each group of points of a segment adds one segment. -/
theorem length_addGroup
    {kind : SegmentKind}
    {ps : List (Point α)}
    {gs : List (PathData.Group α)}
    (hDivided : kind.groups? ps = some gs)
    (b : PathBuilder α) :
    (gs.foldl PathBuilder.addGroup b).recent.length =
      b.recent.length + gs.length := by
  fun_induction SegmentKind.groups? kind ps generalizing b gs with
  | case1 kind =>
      cases hDivided
      rfl
  | case2 p rest ih =>
      rcases Option.map_eq_some_iff.mp hDivided with ⟨more, hMore, rfl⟩
      rw [List.foldl_cons, ih hMore, List.length_cons]
      exact Nat.add_right_comm b.recent.length 1 more.length
  | case3 p₁ p₂ p₃ rest ih =>
      rcases Option.map_eq_some_iff.mp hDivided with ⟨more, hMore, rfl⟩
      rw [List.foldl_cons, ih hMore, List.length_cons]
      exact Nat.add_right_comm b.recent.length 1 more.length
  | case4 q p rest ih =>
      rcases Option.map_eq_some_iff.mp hDivided with ⟨more, hMore, rfl⟩
      rw [List.foldl_cons, ih hMore, List.length_cons]
      exact Nat.add_right_comm b.recent.length 1 more.length
  | case5 => cases hDivided

/-
  Segments that are not stroked are left out of a figure, so it
  has fewer segments than if they were.
-/
theorem length_segments
    {segments : List (SegmentShape α)}
    {css : List (List (Clause α))}
    {b b₁ c c₁ : PathBuilder α}
    (hClauses : segments.mapM SegmentShape.clauses? = some css)
    (hInline : segments.foldlM SegmentShape.add? b = some b₁)
    (hStroke :
      (segments.map SegmentShape.stroke).foldlM
        SegmentShape.add? c = some c₁) :
    b₁.recent.length + segments.countP (!·.stroked)
        + c.recent.length ≤
      c₁.recent.length + b.recent.length := by
  induction segments generalizing css b c with
  | nil =>
      cases hInline
      cases hStroke
      simp [Nat.add_comm]
  | cons s segments ih =>
      rcases mapM_cons_eq_some.mp hClauses with
        ⟨cs, rest, hFirst, hRest, rfl⟩
      rcases SegmentShape.clauses?_eq_some.mp hFirst with
        ⟨gs, hDivided, hSome, rfl⟩
      have hOne := List.length_pos_iff.mpr hSome
      rw [List.map_cons, List.foldlM_cons, add?_stroke, hDivided]
        at hStroke
      have hLength := length_addGroup hDivided c
      rw [List.foldlM_cons] at hInline
      rcases Option.bind_eq_some_iff.mp hInline with
        ⟨next, hAdd, hMore⟩
      have hAll := ih hRest hMore hStroke
      rw [hLength] at hAll
      unfold SegmentShape.add? at hAdd
      rw [List.countP_cons]
      cases hStroked : s.stroked with
      | false =>
          rw [hStroked, if_neg Bool.false_ne_true] at hAdd
          cases hAdd
          rw [Bool.not_false, if_pos rfl]
          omega
      | true =>
          rw [hStroked, if_pos rfl, addPoints?_groups?, hDivided] at hAdd
          cases hAdd
          rw [length_addGroup hDivided] at hAll
          rw [Bool.not_true, if_neg Bool.false_ne_true]
          omega

/- The same for the path of a figure. -/
theorem length_figure
    {f : FigureShape α}
    {cs : List (Clause α)}
    {b c : PathBuilder α}
    (hClauses : f.clauses? = some cs)
    (hInline : f.builder? = some b)
    (hStroke : f.stroke.builder? = some c) :
    b.segments.length + f.segments.countP (!·.stroked) ≤
      c.segments.length := by
  rcases Option.map_eq_some_iff.mp hClauses with ⟨css, hAll, rfl⟩
  rcases Option.map_eq_some_iff.mp hInline with ⟨b₁, hOpen, rfl⟩
  rcases Option.map_eq_some_iff.mp hStroke with ⟨c₁, hOpen', rfl⟩
  have hLength := length_segments hAll hOpen hOpen'
  have hClosed : f.stroke.closed = f.closed := rfl
  rw [hClosed]
  cases f.closed <;>
    simp [PathBuilder.segments, PathBuilder.push] at hLength ⊢ <;>
    omega

/- The same for the paths of several figures. -/
theorem length_figures
    {figures : List (FigureShape α)}
    {css : List (List (Clause α))}
    {bs cs : List (PathBuilder α)}
    (hClauses : figures.mapM FigureShape.clauses? = some css)
    (hInline : figures.mapM FigureShape.builder? = some bs)
    (hStroke :
      (figures.map FigureShape.stroke).mapM FigureShape.builder? =
        some cs) :
    (bs.flatMap PathBuilder.segments).length
        + (figures.flatMap FigureShape.segments).countP
          (!·.stroked) ≤
      (cs.flatMap PathBuilder.segments).length := by
  induction figures generalizing css bs cs with
  | nil =>
      rw [List.mapM_nil] at hInline
      cases hInline
      exact Nat.zero_le _
  | cons f figures ih =>
      rw [List.map_cons] at hStroke
      rcases mapM_cons_eq_some.mp hClauses with
        ⟨_, _, hFirst, hRest, rfl⟩
      rcases mapM_cons_eq_some.mp hInline with
        ⟨b, bs, hB, hBs, rfl⟩
      rcases mapM_cons_eq_some.mp hStroke with
        ⟨c, cs, hC, hCs, rfl⟩
      have hOne := length_figure hFirst hB hC
      have hMore := ih hRest hBs hCs
      simp only [List.flatMap_cons, List.length_append,
        List.countP_append]
      omega

------------------------------------------------------------
-- Path data
------------------------------------------------------------

/- Path data is accepted and draws some segments with a fill rule. -/
structure Draws
    (data : String)
    (segments : List (Segment α))
    (rule? : Option FillRule) : Prop where
  accepted : (trace (α := α) data).fault? = none
  drawn :
    (PathBuilder.empty.takeAll (trace data).steps).segments = segments
  rule :
    (PathBuilder.empty.takeAll
      (trace (α := α) data).steps).fillRule? = rule?

/- The fill rule that a geometry asks for. -/
def ruleOf?
    (nonZero : Bool) : Option FillRule :=
  if nonZero then some .nonZero else none

omit [Scalar α] in
/- Segments that are drawn are added to a path. -/
theorem takeAll_draw
    (segments : List (Segment α))
    (b : PathBuilder α) :
    b.takeAll (segments.map .draw) =
      ⟨segments.reverse ++ b.recent, b.fillRule?⟩ := by
  induction segments generalizing b with
  | nil => rfl
  | cons s rest ih =>
      change (b.push s).takeAll (rest.map .draw) = _
      rw [ih]
      simp [PathBuilder.push]

/- Words spell clauses if their tokens are a sentence. -/
theorem spells_joined_iff
    {words : List (Word α)}
    {cs : List (Clause α)}
    (hValid : ∀ w ∈ words, w.Valid) :
    Spells (String.ofList (joined words)) cs ↔
      Sentence (wordTokens words) cs := by
  have hLexes := lexes_joined hValid
  unfold Spells
  rw [String.toList_ofList]
  constructor
  · rintro ⟨tokens, hTokens, hSentence⟩
    have hSame :=
      (scan_of_lexes hTokens 0).1.symm.trans (scan_of_lexes hLexes 0).1
    rw [hSame] at hSentence
    exact hSentence
  · intro hSentence
    exact ⟨wordTokens words, hLexes, hSentence⟩

section

variable {figures : List (FigureShape α)}

/- The points of some figures are read as they are written. -/
def FiguresReadBack
    (figures : List (FigureShape α)) : Prop :=
  ∀ f ∈ figures, ∀ p ∈ f.points, PointReadsBack p

/- The path data of figures spells their clauses. -/
theorem spells_geometryWords_iff
    {cs : List (Clause α)}
    (hPoints : FiguresReadBack figures)
    (nonZero : Bool) :
    Spells (String.ofList (joined (geometryWords nonZero figures))) cs ↔
      ∃ css,
        figures.mapM FigureShape.clauses? = some css ∧
          cs = ruleClauses nonZero ++ css.flatten := by
  rw [spells_joined_iff (geometryWords_valid hPoints nonZero)]
  exact sentence_geometryWords_iff

/- The path data of figures is accepted if each has clauses. -/
theorem accepted_geometryWords_iff
    (hPoints : FiguresReadBack figures)
    (nonZero : Bool) :
    (trace (α := α)
        (String.ofList
          (joined (geometryWords nonZero figures)))).fault? = none ↔
      ∃ css, figures.mapM FigureShape.clauses? = some css := by
  constructor
  · intro hNone
    have hCases :=
      trace_cases (α := α)
        (String.ofList (joined (geometryWords nonZero figures)))
    rw [hNone] at hCases
    rcases hCases with ⟨cs, hSpells⟩
    rcases (spells_geometryWords_iff hPoints nonZero).mp hSpells with
      ⟨css, hAll, _⟩
    exact ⟨css, hAll⟩
  · rintro ⟨css, hAll⟩
    have hSpells :=
      (spells_geometryWords_iff hPoints nonZero).mpr
        ⟨css, hAll, Eq.refl (ruleClauses nonZero ++ css.flatten)⟩
    rw [trace_of_spells hSpells]

/- The path data of figures draws them as if they were stroked. -/
theorem draws_geometryWords
    [ExactScalar α]
    {css : List (List (Clause α))}
    (hPoints : FiguresReadBack figures)
    (nonZero : Bool)
    (hClauses : figures.mapM FigureShape.clauses? = some css) :
    ∃ bs,
      (figures.map FigureShape.stroke).mapM FigureShape.builder? =
          some bs ∧
        Draws
          (String.ofList (joined (geometryWords nonZero figures)))
          (bs.flatMap PathBuilder.segments) (ruleOf? nonZero) := by
  rcases calls_figures hClauses with ⟨bs, hBuilders, hDraws⟩
  refine ⟨bs, hBuilders, ?_⟩
  have hTrace :=
    trace_of_spells
      ((spells_geometryWords_iff hPoints nonZero).mpr
        ⟨css, hClauses, Eq.refl (ruleClauses nonZero ++ css.flatten)⟩)
  have hOne :
      (Scalar.ofDecimal false 1 0 == (0 : α)) = false := by
    rw [ExactScalar.value_beq]
    simp
  have hCalls :
      calls (ruleClauses nonZero ++ css.flatten) =
        ((ruleOf? nonZero).map PathStep.rule).toList
          ++ (bs.flatMap PathBuilder.segments).map .draw := by
    unfold calls ruleClauses ruleOf?
    rw [List.reverse_append, hDraws, hOne]
    cases nonZero <;> rfl
  have hPath :
      PathBuilder.empty.takeAll
          (calls (ruleClauses nonZero ++ css.flatten)) =
        ⟨(bs.flatMap PathBuilder.segments).reverse,
          ruleOf? nonZero⟩ := by
    rw [hCalls]
    unfold PathBuilder.takeAll
    rw [List.foldl_append]
    change PathBuilder.takeAll _ _ = _
    rw [takeAll_draw]
    cases nonZero <;> simp [ruleOf?, PathBuilder.take,
      PathBuilder.empty]
  refine ⟨?_, ?_, ?_⟩
  · rw [hTrace]
  · rw [hTrace, hPath]
    simp [PathBuilder.segments]
  · rw [hTrace, hPath]

end

------------------------------------------------------------
-- Figures that are drawn alike
------------------------------------------------------------

/- A figure all of whose segments are stroked and have points. -/
def FigureShape.Whole
    (f : FigureShape α) : Prop :=
  ∀ s ∈ f.segments, s.stroked = true ∧ s.points ≠ []

/- Segments that are drawn have clauses if they are whole. -/
theorem clauses_of_add?
    {segments : List (SegmentShape α)}
    {b b' : PathBuilder α}
    (hDrawn : segments.foldlM SegmentShape.add? b = some b')
    (hWhole : ∀ s ∈ segments, s.stroked = true ∧ s.points ≠ []) :
    ∀ s ∈ segments, ∃ cs, s.clauses? = some cs := by
  induction segments generalizing b with
  | nil => exact nofun
  | cons s segments ih =>
      rw [List.foldlM_cons] at hDrawn
      rcases Option.bind_eq_some_iff.mp hDrawn with
        ⟨next, hAdd, hMore⟩
      rcases List.forall_mem_cons.mp hWhole with
        ⟨⟨hStroked, hSome⟩, hRest⟩
      refine List.forall_mem_cons.mpr ⟨?_, ih hMore hRest⟩
      unfold SegmentShape.add? at hAdd
      rw [if_pos hStroked, addPoints?_groups?] at hAdd
      rcases Option.map_eq_some_iff.mp hAdd with ⟨gs, hDivided, _⟩
      exact
        ⟨_, SegmentShape.clauses?_eq_some.mpr
          ⟨gs, hDivided,
            fun hNone => hSome ((groups_of_groups? hDivided).1 hNone),
            rfl⟩⟩

/- Figures that are drawn have clauses if they are whole. -/
theorem clauses_of_whole
    {figures : List (FigureShape α)}
    {bs : List (PathBuilder α)}
    (hDrawn : figures.mapM FigureShape.builder? = some bs)
    (hWhole : ∀ f ∈ figures, f.Whole) :
    ∃ css, figures.mapM FigureShape.clauses? = some css := by
  apply exists_mapM_iff.mpr
  intro f hMem
  rcases exists_mapM_iff.mp ⟨bs, hDrawn⟩ f hMem with ⟨b, hBuilder⟩
  rcases Option.map_eq_some_iff.mp hBuilder with ⟨_, hOpen, _⟩
  rcases exists_mapM_iff.mpr (clauses_of_add? hOpen (hWhole f hMem))
    with ⟨css, hAll⟩
  unfold FigureShape.clauses?
  rw [hAll]
  exact ⟨_, rfl⟩

omit [Scalar α] in
/- Whole figures are stroked already. -/
theorem stroke_of_whole
    {figures : List (FigureShape α)}
    (hWhole : ∀ f ∈ figures, f.Whole) :
    figures.map FigureShape.stroke = figures := by
  have hFigure : ∀ f ∈ figures, f.stroke = f := by
    intro f hMem
    have hSegments : f.segments.map SegmentShape.stroke = f.segments := by
      refine (List.map_congr_left fun s hSegment => ?_).trans
        (List.map_id f.segments)
      unfold SegmentShape.stroke
      rw [← (hWhole f hMem s hSegment).1]
      rfl
    unfold FigureShape.stroke
    rw [hSegments]
  exact (List.map_congr_left hFigure).trans (List.map_id figures)

omit [Scalar α] in
/- Figures with clauses have points in each segment. -/
theorem points_of_clauses
    {figures : List (FigureShape α)}
    {css : List (List (Clause α))}
    (hClauses : figures.mapM FigureShape.clauses? = some css) :
    ∀ f ∈ figures, ∀ s ∈ f.segments, s.points ≠ [] := by
  intro f hFigure s hSegment
  rcases exists_mapM_iff.mp ⟨css, hClauses⟩ f hFigure with ⟨cs, hCs⟩
  rcases Option.map_eq_some_iff.mp hCs with ⟨all, hAll, _⟩
  rcases exists_mapM_iff.mp ⟨all, hAll⟩ s hSegment with
    ⟨first, hFirst⟩
  rcases SegmentShape.clauses?_eq_some.mp hFirst with
    ⟨gs, hDivided, hSome, _⟩
  intro hNone
  rw [hNone] at hDivided
  cases hKind : s.kind <;> rw [hKind] at hDivided <;>
    · cases hDivided
      exact hSome rfl

/-
  Figures are drawn from their path data as they are drawn inside
  a path if and only if all of them are whole.
-/
theorem draws_iff_whole
    [ExactScalar α]
    {figures : List (FigureShape α)}
    {bs : List (PathBuilder α)}
    (hPoints : FiguresReadBack figures)
    (nonZero : Bool)
    (hDrawn : figures.mapM FigureShape.builder? = some bs) :
    Draws
        (String.ofList (joined (geometryWords nonZero figures)))
        (bs.flatMap PathBuilder.segments) (ruleOf? nonZero) ↔
      ∀ f ∈ figures, f.Whole := by
  constructor
  · intro hAlike
    rcases (accepted_geometryWords_iff hPoints nonZero).mp
      hAlike.accepted with ⟨css, hClauses⟩
    rcases draws_geometryWords hPoints nonZero hClauses with
      ⟨cs, hStroke, hStored⟩
    have hLength := length_figures hClauses hDrawn hStroke
    rw [← hAlike.drawn, hStored.drawn] at hLength
    have hNone :
        (figures.flatMap FigureShape.segments).countP
          (!·.stroked) = 0 := by
      omega
    intro f hFigure s hSegment
    refine ⟨?_, points_of_clauses hClauses f hFigure s hSegment⟩
    have hStroked :=
      List.countP_eq_zero.mp hNone s
        (List.mem_flatMap.mpr ⟨f, hFigure, hSegment⟩)
    simpa using hStroked
  · intro hWhole
    rcases clauses_of_whole hDrawn hWhole with ⟨css, hClauses⟩
    rcases draws_geometryWords hPoints nonZero hClauses with
      ⟨cs, hStroke, hStored⟩
    rw [stroke_of_whole hWhole] at hStroke
    cases hDrawn.symm.trans hStroke
    exact hStored

------------------------------------------------------------
-- Stored geometries
------------------------------------------------------------

/- Figures that are painted have paths. -/
theorem builders_of_painted
    {figures : List (FigureShape α)}
    {painted : List (PathBuilder α × Bool)}
    (hPainted : figures.mapM FigureShape.painted? = some painted) :
    figures.mapM FigureShape.builder? =
      some (painted.map Prod.fst) := by
  induction figures generalizing painted with
  | nil =>
      rw [List.mapM_nil] at hPainted
      cases hPainted
      rfl
  | cons f figures ih =>
      rcases mapM_cons_eq_some.mp hPainted with
        ⟨_, rest, hFirst, hRest, rfl⟩
      rcases Option.map_eq_some_iff.mp hFirst with ⟨b, hBuilder, rfl⟩
      exact
        mapM_cons_eq_some.mpr
          ⟨b, _, hBuilder, ih hRest, rfl⟩

/-
  A geometry that is drawn inside a path without error can be
  stored. Its path data draws the segments that its figures have
  inside the path, with its fill rule, if and only if each of its
  segments is stroked and has a point.
-/
theorem GeometryMarkup.stored_outline
    [ExactScalar α]
    {env : Environment α}
    {lookup : BrushLookup α}
    {p : PathFrame α}
    {owner depth : Nat}
    {below : List (Entry α)}
    {st : RenderState α}
    {g : GeometryMarkup}
    {items : List (Location × Event)}
    (hPath : p.inClip = false)
    (hEvents : items.map Prod.snd = g.events)
    (hDraws :
      (Stack.feedAll env (startElement env lookup)
        ⟨⟨.path p, owner⟩ :: below, depth⟩ st items).result =
        .ok none)
    (hText :
      ∀ figures : List (FigureShape α),
        g.figures? = some figures → FiguresReadBack figures)
    (key source : String) :
    ∃ figures painted entry data,
      g.figures? = some figures ∧
        figures.mapM FigureShape.painted? = some painted ∧
        (Stack.feedAll env (startElement env lookup)
            ⟨⟨.path p, owner⟩ :: below, depth⟩ st items).state.surface =
          painted.foldl (paintFigure p.state)
            (Stack.feedAll env (startElement env lookup)
              ⟨⟨.path p, owner⟩ :: below, depth⟩ st
              (items.take 1)).state.surface ∧
        g.entry key = some entry ∧
        Geometry.pathData α source entry.markup = .ok data ∧
        (Draws data (painted.flatMap (·.1.segments))
            (ruleOf? g.nonZero) ↔
          ∀ f ∈ figures, f.Whole) := by
  rcases feedAll_geometry hPath hEvents hDraws with
    ⟨figures, painted, hFigures, hPainted, hSurface⟩
  rcases pathData_markup hFigures (hText figures hFigures) key source
    with ⟨entry, hEntry, hData⟩
  refine
    ⟨figures, painted, entry, _, hFigures, hPainted, hSurface, hEntry,
      hData, ?_⟩
  have hBuilders := builders_of_painted hPainted
  have hSegments :
      painted.flatMap (·.1.segments) =
        (painted.map Prod.fst).flatMap PathBuilder.segments := by
    rw [List.flatMap_map]
  rw [hSegments]
  exact draws_iff_whole (hText figures hFigures) g.nonZero hBuilders

------------------------------------------------------------
-- A corner
------------------------------------------------------------

namespace Corner

/- The first side of a corner, which may be left out or empty. -/
def side
    (stroked empty : Bool) : SegmentMarkup where
  kind := .line
  attributes :=
    [⟨"Points", if empty then "" else "1,0"⟩,
      ⟨"IsStroked", if stroked then "true" else "false"⟩]
  distinct := by cases stroked <;> cases empty <;> decide

/- The other side of a corner, which is bent. -/
def bend : SegmentMarkup where
  kind := .quadratic
  attributes := [⟨"Points", "1,1 0,1"⟩]
  distinct := by decide

/- A corner. -/
def markup
    (stroked empty : Bool) : GeometryMarkup where
  attributes := [⟨"FillRule", "NonZero"⟩]
  distinct := by decide
  noFigures := by decide
  noTransform := by decide
  figures :=
    [⟨[⟨"StartPoint", "0,0"⟩, ⟨"IsClosed", "true"⟩], by decide,
      [side stroked empty, bend]⟩]

/- The figure of a corner. -/
def figure
    (stroked empty : Bool) : FigureShape ℚ where
  start := ⟨0, 0⟩
  closed := true
  filled := true
  segments :=
    [⟨.line, if empty then [] else [⟨1, 0⟩], stroked⟩,
      ⟨.quadratic, [⟨1, 1⟩, ⟨0, 1⟩], true⟩]

/- A package without parts. -/
def env : Environment ℚ where
  source := "page"
  part? _ := none
  loadFont name := .error (.notFound name)
  loadImage name := .error (.notFound name)
  readProfile _ := .error ""
  options := .standard

/- The tags of a corner inside a path. -/
def items
    (stroked empty : Bool) : List (Location × Event) :=
  (markup stroked empty).events.map fun e => (⟨"page", 1, 1⟩, e)

/-
  The path data of a corner that is stored has the segments that
  the corner has inside a path.
-/
def Kept
    (stroked empty : Bool) : Prop :=
  ∃ painted entry data,
    (figure stroked empty).painted? = some painted ∧
      (markup stroked empty).entry "corner" = some entry ∧
      Geometry.pathData ℚ "page" entry.markup = .ok data ∧
      Draws data painted.1.segments (some .nonZero)

end Corner

/- Zero and one are read as they are written. -/
theorem Corner.readsBack
    {x : ℚ}
    (hDigit : x = 0 ∨ x = 1) :
    ReadsBack x := by
  have hDecimal :
      ∃ c,
        (Scalar.text x).toList = [c] ∧ c.isDigit = true ∧
          x = Scalar.ofDecimal false (Decimal.natOfDigits [c]) 0 := by
    rcases hDigit with rfl | rfl
    · exact ⟨'0', by decide +kernel⟩
    · exact ⟨'1', by decide +kernel⟩
  rcases hDecimal with ⟨c, hText, hIs, hValue⟩
  have hNumber :
      NumberText ([] ++ [c])
        (Scalar.ofDecimal false (Decimal.natOfDigits [c]) 0 : ℚ) :=
    .whole .none (by simpa using hIs) (List.cons_ne_nil c [])
  rw [← hValue, List.nil_append, ← hText] at hNumber
  exact hNumber

/- Only a corner whose sides are stroked and not empty is kept. -/
theorem Corner.kept_iff :
    Corner.Kept true false ∧ ¬ Corner.Kept false false ∧
      ¬ Corner.Kept true true := by
  have hFigures :
      ∀ stroked empty,
        (Corner.markup stroked empty).figures? =
          some [Corner.figure stroked empty] := by
    decide +kernel
  have hDraws :
      ∀ stroked empty,
        (Stack.feedAll Corner.env
          (startElement Corner.env (pageBrush Corner.env))
          ⟨[⟨.path ⟨.initial, false, false⟩, 1⟩], 2⟩
          (.start .empty .empty .empty)
          (Corner.items stroked empty)).result = .ok none := by
    decide +kernel
  have hText :
      ∀ stroked empty,
        FiguresReadBack [Corner.figure stroked empty] := by
    have hDigits :
        ∀ stroked empty,
          ∀ p ∈ (Corner.figure stroked empty).points,
            (p.x = 0 ∨ p.x = 1) ∧ (p.y = 0 ∨ p.y = 1) := by
      decide +kernel
    intro stroked empty f hMem p hPoint
    rw [List.mem_singleton.mp hMem] at hPoint
    have hBoth := hDigits stroked empty p hPoint
    exact ⟨Corner.readsBack hBoth.1, Corner.readsBack hBoth.2⟩
  have hIff :
      ∀ stroked empty,
        Corner.Kept stroked empty ↔
          (Corner.figure stroked empty).Whole := by
    intro stroked empty
    have hEvents :
        (Corner.items stroked empty).map Prod.snd =
          (Corner.markup stroked empty).events := by
      unfold Corner.items
      rw [List.map_map]
      exact List.map_id _
    rcases GeometryMarkup.stored_outline rfl hEvents
      (hDraws stroked empty)
      (fun figures hIs => by
        rw [hFigures] at hIs
        cases hIs
        exact hText stroked empty)
      "corner" "page" with
      ⟨figures, painted, entry, data, hIs, hPainted, _, hEntry, hData,
        hAlike⟩
    rw [hFigures] at hIs
    cases hIs
    rcases mapM_cons_eq_some.mp hPainted with
      ⟨first, rest, hFirst, hRest, rfl⟩
    rw [List.mapM_nil] at hRest
    cases hRest
    rw [List.forall_mem_singleton, List.flatMap_singleton] at hAlike
    refine Iff.trans ?_ hAlike
    constructor
    · rintro ⟨painted', entry', data', hPainted', hEntry', hData', hKept⟩
      cases hFirst.symm.trans hPainted'
      cases hEntry.symm.trans hEntry'
      cases hData.symm.trans hData'
      exact hKept
    · intro hKept
      exact ⟨first, entry, data, hFirst, hEntry, hData, hKept⟩
  rw [hIff, hIff, hIff]
  unfold FigureShape.Whole
  decide +kernel

end FixedPage
