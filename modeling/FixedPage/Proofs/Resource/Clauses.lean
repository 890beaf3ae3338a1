import FixedPage.Proofs.Path.Grammar
import FixedPage.Proofs.Resource.Writer

/-
  This file tells which figures are written as sentences. Each
  segment is a command with its points as operands, so a segment
  without points is none, and neither is a curve that lacks some.

  Main declarations:
    * `SegmentKind.groups?`
    * `FigureShape.clauses?`
    * `sentence_segments_iff`
    * `sentence_geometryWords_iff`
-/

namespace FixedPage

open PathData FixedPage.Geometry

variable {α : Type}

------------------------------------------------------------
-- Groups of points
------------------------------------------------------------

/-
  Divides the points of a segment among its lines or curves, if
  none of them lacks a point.
-/
def SegmentKind.groups? :
    SegmentKind → List (Point α) → Option (List (PathData.Group α))
| _, [] => some []
| .line, p :: rest => (groups? .line rest).map (.line p :: ·)
| .cubic, p₁ :: p₂ :: p₃ :: rest =>
    (groups? .cubic rest).map (.cubic p₁ p₂ p₃ :: ·)
| .quadratic, q :: p :: rest =>
    (groups? .quadratic rest).map (.quadratic q p :: ·)
| _, _ => none

/- The clause of a group with absolute points. -/
def absolute
    (g : PathData.Group α) : Clause α :=
  ⟨false, g⟩

/- Tokens of points that start with a point. -/
theorem points_of_pointTokens
    {p : Point α}
    {us : List (Token α)}
    {ps : List (Point α)}
    (hPoints : pointTokens p ++ us = ps.flatMap pointTokens) :
    ∃ rest, ps = p :: rest ∧ us = rest.flatMap pointTokens := by
  cases ps with
  | nil => cases hPoints
  | cons q rest =>
      rcases p with ⟨x, y⟩
      rcases q with ⟨x', y'⟩
      simp only [pointTokens, List.flatMap_cons, List.cons_append,
        List.nil_append, List.cons.injEq, Token.number.injEq,
        true_and] at hPoints
      rcases hPoints with ⟨rfl, rfl, hRest⟩
      exact ⟨rest, rfl, hRest⟩

/- Operands of a segment are its first group of points. -/
theorem groups?_of_operands
    {kind : SegmentKind}
    {ts us : List (Token α)}
    {g : PathData.Group α}
    {ps : List (Point α)}
    (hOperands : Operands kind.letter ts g)
    (hPoints : ts ++ us = ps.flatMap pointTokens) :
    ∃ rest,
      us = rest.flatMap pointTokens ∧
        kind.groups? ps = (kind.groups? rest).map (g :: ·) := by
  cases kind with
  | line =>
      cases hOperands with
      | line p =>
          rcases points_of_pointTokens hPoints with ⟨rest, rfl, rfl⟩
          exact ⟨rest, rfl, rfl⟩
  | cubic =>
      cases hOperands with
      | cubic p₁ p₂ p₃ =>
          rw [List.append_assoc, List.append_assoc] at hPoints
          rcases points_of_pointTokens hPoints with ⟨_, rfl, hSecond⟩
          rcases points_of_pointTokens hSecond with ⟨_, rfl, hThird⟩
          rcases points_of_pointTokens hThird with ⟨rest, rfl, rfl⟩
          exact ⟨rest, rfl, rfl⟩
  | quadratic =>
      cases hOperands with
      | quadratic q p =>
          rw [List.append_assoc] at hPoints
          rcases points_of_pointTokens hPoints with ⟨_, rfl, hSecond⟩
          rcases points_of_pointTokens hSecond with ⟨rest, rfl, rfl⟩
          exact ⟨rest, rfl, rfl⟩

/- Groups of operands of a segment are its groups of points. -/
theorem groups?_of_groups
    {kind : SegmentKind}
    {ps : List (Point α)}
    {cs : List (Clause α)}
    (hGroups :
      Groups kind.letter false (ps.flatMap pointTokens) cs) :
    ∃ gs,
      kind.groups? ps = some gs ∧ gs ≠ [] ∧ cs = gs.map absolute := by
  generalize hLetter : kind.letter = letter at hGroups
  generalize hRelative : false = relative at hGroups
  generalize hTokens : ps.flatMap pointTokens = ts at hGroups
  induction hGroups generalizing ps with
  | @last letter ts g relative hGroup =>
      subst hLetter hRelative
      rw [← List.append_nil ts] at hTokens
      rcases groups?_of_operands hGroup hTokens.symm with
        ⟨rest, hRest, hDivided⟩
      have hNone : rest = [] := by
        cases rest with
        | nil => rfl
        | cons p rest => cases hRest
      subst hNone
      refine ⟨[g], ?_, List.cons_ne_nil g [], rfl⟩
      rw [hDivided]
      cases kind <;> rfl
  | @more letter relative ts us g cs hGroup _ ih =>
      subst hLetter hRelative
      rcases groups?_of_operands hGroup hTokens.symm with
        ⟨rest, hRest, hDivided⟩
      have hFurther : kind.letter = furtherLetter kind.letter := by
        cases kind <;> rfl
      rcases ih hFurther rfl hRest.symm with
        ⟨gs, hGroups, _, rfl⟩
      refine ⟨g :: gs, ?_, List.cons_ne_nil g gs, rfl⟩
      rw [hDivided, hGroups]
      rfl

/- A group of points comes before others. -/
theorem groups_cons
    (kind : SegmentKind)
    {ts us : List (Token α)}
    {g : PathData.Group α}
    {gs : List (PathData.Group α)}
    (hFirst : Operands kind.letter ts g)
    (hEmpty : gs = [] → us = [])
    (hRest :
      gs ≠ [] → Groups kind.letter false us (gs.map absolute)) :
    Groups kind.letter false (ts ++ us)
      ((g :: gs).map absolute) := by
  by_cases hNone : gs = []
  · rw [hEmpty hNone, hNone, List.append_nil]
    exact .last false hFirst
  · have hFurther : furtherLetter kind.letter = kind.letter := by
      cases kind <;> rfl
    refine .more hFirst ?_
    rw [hFurther]
    exact hRest hNone

/- Groups of points of a segment are groups of operands. -/
theorem groups_of_groups?
    {kind : SegmentKind}
    {ps : List (Point α)}
    {gs : List (PathData.Group α)}
    (hDivided : kind.groups? ps = some gs) :
    (gs = [] → ps = []) ∧
      (gs ≠ [] →
        Groups kind.letter false (ps.flatMap pointTokens)
          (gs.map absolute)) := by
  fun_induction SegmentKind.groups? kind ps generalizing gs with
  | case1 kind =>
      cases hDivided
      exact ⟨fun _ => rfl, fun hSome => absurd rfl hSome⟩
  | case2 p rest ih =>
      rcases Option.map_eq_some_iff.mp hDivided with ⟨more, hMore, rfl⟩
      refine ⟨nofun, fun _ => ?_⟩
      exact
        groups_cons .line (.line p)
          (fun hNone => by rw [(ih hMore).1 hNone]; rfl) (ih hMore).2
  | case3 p₁ p₂ p₃ rest ih =>
      rcases Option.map_eq_some_iff.mp hDivided with ⟨more, hMore, rfl⟩
      refine ⟨nofun, fun _ => ?_⟩
      have hAll :=
        groups_cons .cubic (.cubic p₁ p₂ p₃)
          (fun hNone => by rw [(ih hMore).1 hNone]; rfl) (ih hMore).2
      simpa [List.append_assoc] using hAll
  | case4 q p rest ih =>
      rcases Option.map_eq_some_iff.mp hDivided with ⟨more, hMore, rfl⟩
      refine ⟨nofun, fun _ => ?_⟩
      have hAll :=
        groups_cons .quadratic (.quadratic q p)
          (fun hNone => by rw [(ih hMore).1 hNone]; rfl) (ih hMore).2
      simpa [List.append_assoc] using hAll
  | case5 => cases hDivided

------------------------------------------------------------
-- Operands of commands
------------------------------------------------------------

/- The clauses of a segment, unless it lacks points. -/
def SegmentShape.clauses?
    (s : SegmentShape α) : Option (List (Clause α)) :=
  match s.kind.groups? s.points with
  | none => none
  | some [] => none
  | some (g :: gs) => some ((g :: gs).map absolute)

/- The clauses of a segment are its groups of points. -/
theorem SegmentShape.clauses?_eq_some
    {s : SegmentShape α}
    {cs : List (Clause α)} :
    s.clauses? = some cs ↔
      ∃ gs,
        s.kind.groups? s.points = some gs ∧ gs ≠ [] ∧
          cs = gs.map absolute := by
  unfold clauses?
  cases s.kind.groups? s.points with
  | none => simp
  | some gs =>
      cases gs with
      | nil => simp
      | cons g gs => simp [eq_comm]

/- Groups of operands are some clauses. -/
theorem ne_nil_of_groups
    {letter : Char}
    {relative : Bool}
    {ts : List (Token α)}
    {cs : List (Clause α)}
    (hGroups : Groups letter relative ts cs) :
    ts ≠ [] := by
  have hOperands :
      ∀ {letter : Char} {ts : List (Token α)} {g : PathData.Group α},
        Operands letter ts g → ts ≠ [] := by
    rintro letter ts g ⟨⟩ <;> exact List.cons_ne_nil _ _
  cases hGroups with
  | last _ hGroup => exact hOperands hGroup
  | more hGroup _ =>
      exact List.append_ne_nil_of_left_ne_nil (hOperands hGroup) _

section

variable [Scalar α]

/- Points are the operands of a segment if none is missing. -/
theorem commandOperands_segment
    (s : SegmentShape α)
    (cs : List (Clause α)) :
    CommandOperands s.kind.letter (s.points.flatMap pointTokens) cs ↔
      s.clauses? = some cs := by
  have hUpper : s.kind.letter.toUpper = s.kind.letter := by
    cases s.kind <;> rfl
  have hLower : s.kind.letter.isLower = false := by
    cases s.kind <;> rfl
  rw [SegmentShape.clauses?_eq_some]
  constructor
  · intro hOperands
    generalize hTokens : s.points.flatMap pointTokens = ts
      at hOperands
    generalize hLetter : s.kind.letter = letter at hOperands
    cases hOperands with
    | groups hGroups =>
        rw [← hLetter, ← hTokens, hUpper, hLower] at hGroups
        exact groups?_of_groups hGroups
    | close hClose =>
        rw [← hLetter] at hClose
        cases hKind : s.kind <;> rw [hKind] at hClose <;>
          exact absurd hClose (by decide)
    | fill n => cases hKind : s.kind <;> rw [hKind] at hLetter <;>
          exact absurd hLetter (by decide)
  · rintro ⟨gs, hDivided, hSome, rfl⟩
    refine .groups ?_
    rw [hUpper, hLower]
    exact (groups_of_groups? hDivided).2 hSome

/- A point is the operand of a move. -/
theorem commandOperands_move
    (p : Point α)
    (cs : List (Clause α)) :
    CommandOperands 'M' (pointTokens p) cs ↔
      cs = [absolute (.move p)] := by
  constructor
  · intro hOperands
    rcases p with ⟨x, y⟩
    generalize hTokens : pointTokens ⟨x, y⟩ = ts at hOperands
    generalize hLetter : 'M' = letter at hOperands
    cases hOperands with
    | groups hGroups =>
        subst hLetter
        have hUpper : 'M'.toUpper = 'M' := rfl
        rw [hUpper] at hGroups
        cases hGroups with
        | last _ hGroup =>
            cases hGroup with
            | move q =>
                rcases q with ⟨x, y⟩
                cases hTokens
                rfl
        | more hGroup hMore =>
            cases hGroup with
            | move q =>
                rcases q with ⟨x, y⟩
                cases hTokens
                exact absurd rfl (ne_nil_of_groups hMore)
    | close hClose =>
        subst hLetter
        exact absurd hClose (by decide)
    | fill n => exact absurd hLetter (by decide)
  · rintro rfl
    exact .groups (.last _ (.move p))

/- A close has no operand. -/
theorem commandOperands_close
    (cs : List (Clause α)) :
    CommandOperands 'Z' [] cs ↔ cs = [absolute .close] := by
  constructor
  · intro hOperands
    generalize hLetter : 'Z' = letter at hOperands
    generalize hTokens : [] = ts at hOperands
    cases hOperands with
    | groups hGroups => exact absurd hTokens.symm (ne_nil_of_groups hGroups)
    | close _ =>
        subst hLetter
        rfl
    | fill n => cases hTokens
  · rintro rfl
    exact .close (.inl rfl)

/- A number is the operand of the fill rule. -/
theorem commandOperands_fill
    (n : α)
    (cs : List (Clause α)) :
    CommandOperands 'F' [.number n] cs ↔
      cs = [absolute (.fill (if n == 0 then .evenOdd else .nonZero))] := by
  constructor
  · intro hOperands
    generalize hTokens : [Token.number n] = ts at hOperands
    generalize hLetter : 'F' = letter at hOperands
    cases hOperands with
    | groups hGroups =>
        subst hLetter
        have hUpper : 'F'.toUpper = 'F' := rfl
        rw [hUpper] at hGroups
        cases hGroups with
        | last _ hGroup => cases hGroup
        | more hGroup _ => cases hGroup
    | close hClose =>
        subst hLetter
        exact absurd hClose (by decide)
    | fill m =>
        cases hTokens
        rfl
  · rintro rfl
    exact .fill n

------------------------------------------------------------
-- Sentences
------------------------------------------------------------

omit [Scalar α] in
/- No command letter is among some tokens. -/
def Plain
    (ts : List (Token α)) : Prop :=
  ∀ c, .command c ∉ ts

omit [Scalar α] in
/- Some tokens begin with a command letter, if there are any. -/
def Leads
    (us : List (Token α)) : Prop :=
  ∀ t ∈ us.head?, ∃ c, t = .command c

omit [Scalar α] in
/- Points are no command letters. -/
theorem plain_points
    (ps : List (Point α)) :
    Plain (ps.flatMap pointTokens) := by
  intro c hMem
  rcases List.mem_flatMap.mp hMem with ⟨p, _, hToken⟩
  simp [pointTokens] at hToken

omit [Scalar α] in
/- Groups of operands are no command letters. -/
theorem plain_groups
    {letter : Char}
    {relative : Bool}
    {ts : List (Token α)}
    {cs : List (Clause α)}
    (hGroups : Groups letter relative ts cs) :
    Plain ts := by
  have hGroup :
      ∀ {letter : Char} {ts : List (Token α)} {g : PathData.Group α},
        Operands letter ts g → Plain ts := by
    rintro letter ts g ⟨⟩ c <;> simp [pointTokens]
  induction hGroups with
  | last _ hLast => exact hGroup hLast
  | more hFirst _ ih =>
      intro c hMem
      rcases List.mem_append.mp hMem with hMem | hMem
      · exact hGroup hFirst c hMem
      · exact ih c hMem

/- Operands are no command letters. -/
theorem plain_operands
    {letter : Char}
    {ts : List (Token α)}
    {cs : List (Clause α)}
    (hOperands : CommandOperands letter ts cs) :
    Plain ts := by
  cases hOperands with
  | groups hGroups => exact plain_groups hGroups
  | close => exact fun _ => List.not_mem_nil
  | fill n =>
      intro c
      simp

/- A sentence begins with a command letter. -/
theorem leads_sentence
    {us : List (Token α)}
    {cs : List (Clause α)}
    (hSentence : Sentence us cs) :
    Leads us := by
  cases hSentence with
  | nil => exact nofun
  | @command letter =>
      intro t hHead
      cases hHead
      exact ⟨letter, rfl⟩

omit [Scalar α] in
/- Operands end where the next command letter stands. -/
theorem plain_append_inj
    {ts us ts' us' : List (Token α)}
    (hPlain : Plain ts)
    (hPlain' : Plain ts')
    (hLeads : Leads us)
    (hLeads' : Leads us')
    (hSame : ts ++ us = ts' ++ us') :
    ts = ts' ∧ us = us' := by
  induction ts generalizing ts' with
  | nil =>
      cases ts' with
      | nil => exact ⟨rfl, hSame⟩
      | cons t ts' =>
          rw [List.nil_append, List.cons_append] at hSame
          rcases hLeads t (by rw [hSame]; rfl) with ⟨c, rfl⟩
          exact absurd (List.mem_cons_self) (hPlain' c)
  | cons t ts ih =>
      cases ts' with
      | nil =>
          rw [List.nil_append, List.cons_append] at hSame
          rcases hLeads' t (by rw [← hSame]; rfl) with ⟨c, rfl⟩
          exact absurd (List.mem_cons_self) (hPlain c)
      | cons t' ts' =>
          rcases List.cons.inj hSame with ⟨rfl, hRest⟩
          rcases ih (fun c hMem => hPlain c (.tail _ hMem))
            (fun c hMem => hPlain' c (.tail _ hMem)) hRest with
            ⟨rfl, rfl⟩
          exact ⟨rfl, rfl⟩

/- A sentence is a command with its operands before a sentence. -/
theorem sentence_command_iff
    {letter : Char}
    {ts us : List (Token α)}
    {cs : List (Clause α)}
    (hPlain : Plain ts)
    (hLeads : Leads us) :
    Sentence (.command letter :: (ts ++ us)) cs ↔
      ∃ first rest,
        CommandOperands letter ts first ∧ Sentence us rest ∧
          cs = first ++ rest := by
  constructor
  · intro hSentence
    generalize hAll : Token.command letter :: (ts ++ us) = all
      at hSentence
    cases hSentence with
    | nil => cases hAll
    | command hOperands hRest =>
        rcases List.cons.inj hAll with ⟨hLetter, hTokens⟩
        cases hLetter
        rcases plain_append_inj hPlain (plain_operands hOperands)
          hLeads (leads_sentence hRest) hTokens with ⟨rfl, rfl⟩
        exact ⟨_, _, hOperands, hRest, rfl⟩
  · rintro ⟨first, rest, hOperands, hRest, rfl⟩
    exact .command hOperands hRest

------------------------------------------------------------
-- Words
------------------------------------------------------------

omit [Scalar α] in
/- The clauses of a figure, unless one of its segments has none. -/
def FigureShape.clauses?
    (f : FigureShape α) : Option (List (Clause α)) :=
  (f.segments.mapM SegmentShape.clauses?).map fun css =>
    absolute (.move f.start)
      :: (css.flatten ++ if f.closed then [absolute .close] else [])

/- The tokens of some words. -/
def wordTokens
    (words : List (Word α)) : List (Token α) :=
  words.flatMap Word.tokens

/- The tokens of words that follow each other. -/
@[simp] theorem wordTokens_append
    (words more : List (Word α)) :
    wordTokens (words ++ more) = wordTokens words ++ wordTokens more := by
  exact List.flatMap_append

/- The tokens of a segment. -/
theorem wordTokens_segment
    (s : SegmentShape α) :
    wordTokens s.words =
      .command s.kind.letter :: s.points.flatMap pointTokens := by
  unfold wordTokens SegmentShape.words
  rw [List.flatMap_cons, List.flatMap_map]
  rfl

/- The tokens of a figure. -/
theorem wordTokens_figure
    (f : FigureShape α) :
    wordTokens f.words =
      .command 'M'
        :: (pointTokens f.start
          ++ (wordTokens (f.segments.flatMap SegmentShape.words)
            ++ wordTokens
              (if f.closed then [.letter 'Z'] else []))) := by
  unfold FigureShape.words wordTokens
  rw [List.flatMap_cons, List.flatMap_cons, List.flatMap_append]
  rfl

/- Segments begin with a command letter. -/
theorem leads_segments
    {us : List (Token α)}
    (hLeads : Leads us)
    (segments : List (SegmentShape α)) :
    Leads
      (wordTokens (segments.flatMap SegmentShape.words) ++ us) := by
  cases segments with
  | nil => exact hLeads
  | cons s rest =>
      rw [List.flatMap_cons, wordTokens_append, wordTokens_segment]
      intro t hHead
      cases hHead
      exact ⟨_, rfl⟩

/- Figures begin with a command letter. -/
theorem leads_figures
    (figures : List (FigureShape α)) :
    Leads (wordTokens (figures.flatMap FigureShape.words)) := by
  cases figures with
  | nil => exact nofun
  | cons f rest =>
      rw [List.flatMap_cons, wordTokens_append, wordTokens_figure]
      intro t hHead
      cases hHead
      exact ⟨_, rfl⟩

/- Segments are a sentence if each of them has clauses. -/
theorem sentence_segments_iff
    {segments : List (SegmentShape α)}
    {us : List (Token α)}
    {cs : List (Clause α)}
    (hLeads : Leads us) :
    Sentence
        (wordTokens (segments.flatMap SegmentShape.words) ++ us) cs ↔
      ∃ css rest,
        segments.mapM SegmentShape.clauses? = some css ∧
          Sentence us rest ∧ cs = css.flatten ++ rest := by
  induction segments generalizing cs with
  | nil =>
      constructor
      · intro hSentence
        exact ⟨[], cs, rfl, hSentence, rfl⟩
      · rintro ⟨css, rest, hNone, hSentence, rfl⟩
        rw [List.mapM_nil] at hNone
        cases hNone
        exact hSentence
  | cons s segments ih =>
      rw [List.flatMap_cons, wordTokens_append, wordTokens_segment,
        List.append_assoc, List.cons_append,
        sentence_command_iff (plain_points s.points)
          (leads_segments hLeads segments)]
      constructor
      · rintro ⟨first, more, hFirst, hMore, rfl⟩
        rcases ih.mp hMore with ⟨css, rest, hAll, hRest, rfl⟩
        refine ⟨first :: css, rest, ?_, hRest, ?_⟩
        · exact
            mapM_cons_eq_some.mpr
              ⟨first, css, (commandOperands_segment s first).mp hFirst,
                hAll, rfl⟩
        · rw [List.flatten_cons, List.append_assoc]
      · rintro ⟨css, rest, hAll, hRest, rfl⟩
        rcases mapM_cons_eq_some.mp hAll with
          ⟨first, more, hFirst, hMore, rfl⟩
        refine
          ⟨first, more.flatten ++ rest,
            (commandOperands_segment s first).mpr hFirst,
            ih.mpr ⟨more, rest, hMore, hRest, rfl⟩, ?_⟩
        rw [List.flatten_cons, List.append_assoc]

/- A figure is a sentence if it has clauses. -/
theorem sentence_figure_iff
    {f : FigureShape α}
    {us : List (Token α)}
    {cs : List (Clause α)}
    (hLeads : Leads us) :
    Sentence (wordTokens f.words ++ us) cs ↔
      ∃ first rest,
        f.clauses? = some first ∧ Sentence us rest ∧
          cs = first ++ rest := by
  have hClose :
      ∀ cs,
        Sentence
            (wordTokens (if f.closed then [.letter 'Z'] else []) ++ us)
            cs ↔
          ∃ rest,
            Sentence us rest ∧
              cs =
                (if f.closed then [absolute .close] else []) ++ rest := by
    intro cs
    cases f.closed with
    | false => simp [wordTokens]
    | true =>
        have hTokens :
            wordTokens [.letter 'Z'] ++ us =
              .command 'Z' :: ([] ++ us) := rfl
        rw [if_pos rfl, if_pos rfl, hTokens,
          sentence_command_iff (fun _ => List.not_mem_nil) hLeads]
        simp [commandOperands_close]
  have hLeadsClose :
      Leads
        (wordTokens (if f.closed then [.letter 'Z'] else [])
          ++ us) := by
    cases f.closed with
    | false => exact hLeads
    | true =>
        intro t hHead
        cases hHead
        exact ⟨'Z', rfl⟩
  have hPoint : Plain (pointTokens f.start) := by
    simpa using plain_points [f.start]
  rw [wordTokens_figure, List.cons_append, List.append_assoc,
    List.append_assoc,
    sentence_command_iff hPoint
      (leads_segments hLeadsClose f.segments)]
  unfold FigureShape.clauses?
  constructor
  · rintro ⟨first, more, hFirst, hMore, rfl⟩
    rcases (sentence_segments_iff hLeadsClose).mp hMore with
      ⟨css, last, hAll, hLast, rfl⟩
    rcases (hClose last).mp hLast with ⟨rest, hRest, rfl⟩
    rw [(commandOperands_move f.start first).mp hFirst, hAll]
    refine ⟨_, rest, rfl, hRest, ?_⟩
    simp [List.append_assoc]
  · rintro ⟨first, rest, hFigure, hRest, rfl⟩
    rcases Option.map_eq_some_iff.mp hFigure with ⟨css, hAll, rfl⟩
    refine
      ⟨_, _, (commandOperands_move f.start _).mpr rfl,
        (sentence_segments_iff hLeadsClose).mpr
          ⟨css, _, hAll, (hClose _).mpr ⟨rest, hRest, rfl⟩, rfl⟩, ?_⟩
    simp [List.append_assoc]

/- Figures are a sentence if each of them has clauses. -/
theorem sentence_figures_iff
    {figures : List (FigureShape α)}
    {cs : List (Clause α)} :
    Sentence (wordTokens (figures.flatMap FigureShape.words)) cs ↔
      ∃ css,
        figures.mapM FigureShape.clauses? = some css ∧
          cs = css.flatten := by
  induction figures generalizing cs with
  | nil =>
      constructor
      · intro hSentence
        cases hSentence
        exact ⟨[], rfl, rfl⟩
      · rintro ⟨css, hNone, rfl⟩
        rw [List.mapM_nil] at hNone
        cases hNone
        exact .nil
  | cons f figures ih =>
      rw [List.flatMap_cons, wordTokens_append,
        sentence_figure_iff (leads_figures figures)]
      constructor
      · rintro ⟨first, rest, hFirst, hRest, rfl⟩
        rcases ih.mp hRest with ⟨css, hAll, rfl⟩
        exact
          ⟨first :: css,
            mapM_cons_eq_some.mpr ⟨first, css, hFirst, hAll, rfl⟩, rfl⟩
      · rintro ⟨css, hAll, rfl⟩
        rcases mapM_cons_eq_some.mp hAll with
          ⟨first, more, hFirst, hMore, rfl⟩
        exact
          ⟨first, more.flatten, hFirst, ih.mpr ⟨more, hMore, rfl⟩, rfl⟩

/- The clause of the fill rule that goes before figures. -/
def ruleClauses
    (nonZero : Bool) : List (Clause α) :=
  if nonZero then
    [absolute
      (.fill
        (if Scalar.ofDecimal false 1 0 == (0 : α) then .evenOdd
          else .nonZero))]
  else []

/-
  A geometry is a sentence if each of its figures has clauses.
-/
theorem sentence_geometryWords_iff
    {nonZero : Bool}
    {figures : List (FigureShape α)}
    {cs : List (Clause α)} :
    Sentence (wordTokens (geometryWords nonZero figures)) cs ↔
      ∃ css,
        figures.mapM FigureShape.clauses? = some css ∧
          cs = ruleClauses nonZero ++ css.flatten := by
  unfold geometryWords ruleClauses
  cases nonZero with
  | false =>
      rw [if_neg Bool.false_ne_true, if_neg Bool.false_ne_true,
        List.nil_append, sentence_figures_iff]
      rfl
  | true =>
      have hTokens :
          wordTokens
              ([.nonZero] ++ figures.flatMap FigureShape.words) =
            .command 'F'
              :: ([.number (Scalar.ofDecimal false 1 0)]
                ++ wordTokens (figures.flatMap FigureShape.words)) :=
        rfl
      have hPlain :
          Plain [Token.number (Scalar.ofDecimal false 1 0 : α)] := by
        intro c
        simp
      rw [if_pos rfl, if_pos rfl, hTokens,
        sentence_command_iff hPlain (leads_figures figures)]
      constructor
      · rintro ⟨first, rest, hFirst, hRest, rfl⟩
        rcases sentence_figures_iff.mp hRest with ⟨css, hAll, rfl⟩
        rw [(commandOperands_fill _ first).mp hFirst]
        exact ⟨css, hAll, rfl⟩
      · rintro ⟨css, hAll, rfl⟩
        exact
          ⟨_, _, (commandOperands_fill _ _).mpr rfl,
            sentence_figures_iff.mpr ⟨css, hAll, rfl⟩, rfl⟩

end

end FixedPage
