import FixedPage.Proofs.Path.Lexical
import FixedPage.Proofs.Resource.Shape
import FixedPage.Resource.Geometry

/-
  This file states what path data that is written word by word
  is cut into. The words are letters, points and the fill rule,
  with one space between them.

  Then it follows the writer of a stored geometry. Figures that
  can be read are written word by word, and the path data is these
  words.

  Main declarations:
    * `Word`
    * `joined`
    * `ReadsBack`
    * `lexes_joined`
    * `Writer.Steps`
    * `FigureShape.words`
    * `geometryWords`
    * `GeometryMarkup.pathData_markup`
-/

namespace FixedPage.Geometry

open PathData

variable {α : Type}

------------------------------------------------------------
-- Words
------------------------------------------------------------

/- What path data is written in. -/
inductive Word (α : Type) where
  | letter
      (c : Char)
  | point
      (p : Point α)
  | nonZero
deriving DecidableEq, Repr

section

variable [Scalar α]

/- The characters of a word. -/
def Word.chars : Word α → List Char
| .letter c => [c]
| .point p => (pointText p).toList
| .nonZero => ['F', '1']

/- The tokens of a word. -/
def Word.tokens : Word α → List (Token α)
| .letter c => [.command c]
| .point p => [.number p.x, .comma, .number p.y]
| .nonZero => [.command 'F', .number (Scalar.ofDecimal false 1 0)]

/- Words with one space between them. -/
def joined : List (Word α) → List Char
| [] => []
| w :: rest => w.chars ++ rest.flatMap fun w => ' ' :: w.chars

/- More words go after some. -/
theorem joined_append
    {words : List (Word α)}
    (hSome : words ≠ [])
    (more : List (Word α)) :
    joined (words ++ more) =
      joined words ++ more.flatMap fun w => ' ' :: w.chars := by
  cases words with
  | nil => exact absurd rfl hSome
  | cons w rest => simp [joined]

------------------------------------------------------------
-- Numbers
------------------------------------------------------------

/- A number that is written as path data reads it. -/
def ReadsBack
    (x : α) : Prop :=
  NumberText (Scalar.text x).toList x

/- A word whose characters are cut into its tokens. -/
inductive Word.Valid : Word α → Prop
| letter
    {c : Char}
    (hLetter : c.isAlpha = true) :
    Valid (.letter c)
| point
    {p : Point α}
    (hX : ReadsBack p.x)
    (hY : ReadsBack p.y) :
    Valid (.point p)
| nonZero :
    Valid .nonZero

/- A number is made of digits, signs and points. -/
theorem char_of_numberText
    {text : List Char}
    {value : α}
    (hNumber : NumberText text value)
    {c : Char}
    (hMem : c ∈ text) :
    c.isDigit = true ∨ c = '+' ∨ c = '-' ∨ c = '.' := by
  have hSign :
      ∀ {negative sign}, Sign negative sign → c ∈ sign →
        c = '+' ∨ c = '-' := by
    intro negative sign hSign hIn
    cases hSign with
    | none => cases hIn
    | plus => exact .inl (List.mem_singleton.mp hIn)
    | minus => exact .inr (List.mem_singleton.mp hIn)
  cases hNumber with
  | whole hFirst hDigits _ =>
      rcases List.mem_append.mp hMem with hIn | hIn
      · rcases hSign hFirst hIn with hIs | hIs
        · exact .inr (.inl hIs)
        · exact .inr (.inr (.inl hIs))
      · exact .inl (hDigits c hIn)
  | point hFirst hWhole hFraction _ =>
      rcases List.mem_append.mp hMem with hIn | hIn
      · rcases hSign hFirst hIn with hIs | hIs
        · exact .inr (.inl hIs)
        · exact .inr (.inr (.inl hIs))
      · rcases List.mem_append.mp hIn with hIn | hIn
        · exact .inl (hWhole c hIn)
        · rcases List.mem_cons.mp hIn with hIs | hIn
          · exact .inr (.inr (.inr hIs))
          · exact .inl (hFraction c hIn)

/- Digits are no blanks. -/
theorem isBlank_of_isDigit
    {c : Char}
    (hDigit : c.isDigit = true) :
    Text.isBlank c = false := by
  have hDigits :
      ∀ n < 58, 48 ≤ n → Text.isBlank (Char.ofNat n) = false := by
    decide
  simp only [Char.isDigit, Bool.and_eq_true, decide_eq_true_eq]
    at hDigit
  have hLow : 48 ≤ c.toNat := hDigit.1
  have hHigh : c.toNat ≤ 57 := hDigit.2
  have hPlain := hDigits c.toNat (Nat.lt_succ_of_le hHigh) hLow
  rwa [Char.ofNat_toNat] at hPlain

/- Letters are no blanks. -/
theorem isBlank_of_isAlpha
    {c : Char}
    (hLetter : c.isAlpha = true) :
    Text.isBlank c = false := by
  have hLetters :
      ∀ n < 123, 65 ≤ n → Text.isBlank (Char.ofNat n) = false := by
    decide
  have hRange : 65 ≤ c.toNat ∧ c.toNat < 123 := by
    have hRange := range_of_isAlpha hLetter
    omega
  have hPlain := hLetters c.toNat hRange.2 hRange.1
  rwa [Char.ofNat_toNat] at hPlain

/- The characters of a number are no blanks. -/
theorem isBlank_of_numberText
    {text : List Char}
    {value : α}
    (hNumber : NumberText text value)
    {c : Char}
    (hMem : c ∈ text) :
    Text.isBlank c = false := by
  rcases char_of_numberText hNumber hMem with hDigit | rfl | rfl | rfl
  · exact isBlank_of_isDigit hDigit
  all_goals rfl

/- A number is not empty. -/
theorem ne_nil_of_numberText
    {text : List Char}
    {value : α}
    (hNumber : NumberText text value) :
    text ≠ [] := by
  rcases hNumber.exists_digit with ⟨c, hMem, _⟩
  exact List.ne_nil_of_mem hMem

------------------------------------------------------------
-- Lexing
------------------------------------------------------------

/- A number ends before a comma, before a space and at the end. -/
theorem lexes_number
    {text tail rest : List Char}
    {value : α}
    {ts : List (Token α)}
    (hNumber : NumberText text value)
    (hTail : ∀ c more, tail = c :: more → c = ',' ∨ c = ' ')
    (hRest : Lexes tail ts rest) :
    Lexes (text ++ tail) (.number value :: ts) rest := by
  refine .number hNumber ?_ hRest
  intro more left other hSplit hOther
  cases more with
  | nil => rfl
  | cons c more =>
      have hFirst := hTail c (more ++ left) hSplit
      have hChar :=
        char_of_numberText hOther
          (List.mem_append_right text (List.mem_cons_self (a := c)))
      rcases hFirst with rfl | rfl
      · exact absurd hChar (by decide)
      · exact absurd hChar (by decide)

/- A word is cut into its tokens before a space and at the end. -/
theorem Word.Valid.lexes
    {w : Word α}
    {tail rest : List Char}
    {ts : List (Token α)}
    (hValid : w.Valid)
    (hTail : ∀ c more, tail = c :: more → c = ' ')
    (hRest : Lexes tail ts rest) :
    Lexes (w.chars ++ tail) (w.tokens ++ ts) rest := by
  have hEnds : ∀ c more, tail = c :: more → c = ',' ∨ c = ' ' :=
    fun c more hCons => .inr (hTail c more hCons)
  cases hValid with
  | letter hLetter => exact .command hLetter hRest
  | @point p hX hY =>
      have hChars :
          (Word.point p).chars ++ tail =
            (Scalar.text p.x).toList
              ++ ',' :: ((Scalar.text p.y).toList ++ tail) := by
        simp [Word.chars, pointText]
      rw [hChars]
      refine lexes_number hX ?_ (.comma (lexes_number hY hEnds hRest))
      intro c more hCons
      exact .inl (List.cons.inj hCons).1.symm
  | nonZero =>
      have hOne :
          NumberText ['1'] (Scalar.ofDecimal false 1 0 : α) :=
        .whole .none (List.all_eq_true.mp rfl) (List.cons_ne_nil _ _)
      exact .command rfl (lexes_number hOne hEnds hRest)

/- Words are cut into their tokens. -/
theorem lexes_joined
    {words : List (Word α)}
    (hValid : ∀ w ∈ words, w.Valid) :
    Lexes (joined words) (words.flatMap Word.tokens) [] := by
  have hRest :
      ∀ {words : List (Word α)},
        (∀ w ∈ words, w.Valid) →
          Lexes (words.flatMap fun w => ' ' :: w.chars)
            (words.flatMap Word.tokens) [] := by
    intro words hAll
    induction words with
    | nil => exact .done []
    | cons w rest ih =>
        rw [List.flatMap_cons, List.flatMap_cons, List.cons_append]
        refine .blank (.inl rfl) ?_
        refine (hAll w (.head _)).lexes ?_
          (ih fun v hMem => hAll v (.tail _ hMem))
        intro c more hCons
        cases rest with
        | nil => cases hCons
        | cons v rest =>
            rw [List.flatMap_cons, List.cons_append] at hCons
            exact (List.cons.inj hCons).1.symm
  cases words with
  | nil => exact .done []
  | cons w rest =>
      refine (hValid w (.head _)).lexes ?_
        (hRest fun v hMem => hValid v (.tail _ hMem))
      intro c more hCons
      cases rest with
      | nil => cases hCons
      | cons v rest =>
          rw [List.flatMap_cons, List.cons_append] at hCons
          exact (List.cons.inj hCons).1.symm

/- A word ends in a character that is no blank. -/
theorem Word.Valid.getLast?
    {w : Word α}
    (hValid : w.Valid) :
    ∃ c, w.chars.getLast? = some c ∧ Text.isBlank c = false := by
  cases hValid with
  | @letter c hLetter => exact ⟨c, rfl, isBlank_of_isAlpha hLetter⟩
  | nonZero => exact ⟨'1', rfl, rfl⟩
  | @point p hX hY =>
      have hSome := ne_nil_of_numberText hY
      have hLast := List.getLast?_eq_some_getLast hSome
      refine
        ⟨(Scalar.text p.y).toList.getLast hSome, ?_,
          isBlank_of_numberText hY (List.getLast_mem hSome)⟩
      simp [Word.chars, pointText, List.getLast?_append,
        List.getLast?_cons, hLast]

/- Words end in a character that is no blank. -/
theorem getLast?_joined
    {words : List (Word α)}
    (hSome : words ≠ [])
    (hValid : ∀ w ∈ words, w.Valid) :
    ∃ c,
      (joined words).getLast? = some c ∧ Text.isBlank c = false := by
  rcases List.eq_nil_or_concat words with rfl | ⟨front, w, rfl⟩
  · exact absurd rfl hSome
  · rw [List.concat_eq_append] at hValid ⊢
    rcases (hValid w (by simp)).getLast? with ⟨c, hLast, hPlain⟩
    refine ⟨c, ?_, hPlain⟩
    cases front with
    | nil => simpa [joined] using hLast
    | cons v front =>
        rw [joined_append (List.cons_ne_nil v front)]
        simp [List.getLast?_append, List.getLast?_cons, hLast]

end

end FixedPage.Geometry

namespace FixedPage

open Markup FixedPage.Geometry

variable {α : Type} [Scalar α]

------------------------------------------------------------
-- Words of shapes
------------------------------------------------------------

/- The command letter of a segment. -/
def SegmentKind.letter : SegmentKind → Char
| .line => 'L'
| .cubic => 'C'
| .quadratic => 'Q'

omit [Scalar α] in
/- The words of a segment. -/
def SegmentShape.words
    (s : SegmentShape α) : List (Word α) :=
  .letter s.kind.letter :: s.points.map .point

omit [Scalar α] in
/- The words of a figure. -/
def FigureShape.words
    (f : FigureShape α) : List (Word α) :=
  .letter 'M' :: .point f.start
    :: (f.segments.flatMap SegmentShape.words
      ++ if f.closed then [.letter 'Z'] else [])

omit [Scalar α] in
/- The words of a geometry. -/
def geometryWords
    (nonZero : Bool)
    (figures : List (FigureShape α)) : List (Word α) :=
  (if nonZero then [.nonZero] else [])
    ++ figures.flatMap FigureShape.words

omit [Scalar α] in
/- The points of a figure. -/
def FigureShape.points
    (f : FigureShape α) : List (Point α) :=
  f.start :: f.segments.flatMap SegmentShape.points

/- A point whose coordinates are written as they are read. -/
structure PointReadsBack
    (p : Point α) : Prop where
  x : ReadsBack p.x
  y : ReadsBack p.y

/- The words of a segment can be read. -/
theorem SegmentShape.words_valid
    {s : SegmentShape α}
    (hPoints : ∀ p ∈ s.points, PointReadsBack p) :
    ∀ w ∈ s.words, w.Valid := by
  intro w hMem
  rcases List.mem_cons.mp hMem with rfl | hMem
  · exact .letter (by cases s.kind <;> rfl)
  · rcases List.mem_map.mp hMem with ⟨p, hPoint, rfl⟩
    exact .point (hPoints p hPoint).x (hPoints p hPoint).y

/- The words of a figure can be read. -/
theorem FigureShape.words_valid
    {f : FigureShape α}
    (hPoints : ∀ p ∈ f.points, PointReadsBack p) :
    ∀ w ∈ f.words, w.Valid := by
  have hStart := hPoints f.start (.head _)
  intro w hMem
  rcases List.mem_cons.mp hMem with rfl | hMem
  · exact .letter rfl
  rcases List.mem_cons.mp hMem with rfl | hMem
  · exact .point hStart.x hStart.y
  rcases List.mem_append.mp hMem with hMem | hMem
  · rcases List.mem_flatMap.mp hMem with ⟨s, hSegment, hWord⟩
    refine SegmentShape.words_valid (fun p hPoint => ?_) w hWord
    exact
      hPoints p (.tail _ (List.mem_flatMap.mpr ⟨s, hSegment, hPoint⟩))
  · split at hMem
    · rw [List.mem_singleton.mp hMem]
      exact .letter rfl
    · cases hMem

/- The words of a geometry can be read. -/
theorem geometryWords_valid
    {figures : List (FigureShape α)}
    (hPoints :
      ∀ f ∈ figures, ∀ p ∈ f.points, PointReadsBack p)
    (nonZero : Bool) :
    ∀ w ∈ geometryWords nonZero figures, w.Valid := by
  intro w hMem
  rcases List.mem_append.mp hMem with hMem | hMem
  · split at hMem
    · rw [List.mem_singleton.mp hMem]
      exact .nonZero
    · cases hMem
  · rcases List.mem_flatMap.mp hMem with ⟨f, hFigure, hWord⟩
    exact FigureShape.words_valid (hPoints f hFigure) w hWord

------------------------------------------------------------
-- Steps
------------------------------------------------------------

namespace Geometry

/- The writer takes some events, wherever they stand. -/
inductive Writer.Steps
    (α : Type)
    [Scalar α] :
    Writer → List Event → Writer → Prop
| nil
    (w : Writer) :
    Steps α w [] w
| cons
    {w last : Writer}
    {e : Event}
    {rest : List Event}
    (next : Writer)
    (hStep : ∀ place, w.step α (place, e) = .ok next)
    (hRest : Steps α next rest last) :
    Steps α w (e :: rest) last

namespace Writer

/- Events come after others. -/
theorem Steps.append
    {w next last : Writer}
    {events more : List Event}
    (hEvents : Steps α w events next)
    (hMore : Steps α next more last) :
    Steps α w (events ++ more) last := by
  induction hEvents with
  | nil => exact hMore
  | cons next hStep _ ih => exact .cons next hStep (ih hMore)

/- Items that hold the events are taken. -/
theorem Steps.run
    {w last : Writer}
    {events : List Event}
    {items : List Item}
    (hSteps : Steps α w events last)
    (hItems : items.map Item.event = events.map .ok) :
    w.run α items = .ok last := by
  induction hSteps generalizing items with
  | nil =>
      rw [List.map_eq_nil_iff.mp hItems]
      rfl
  | @cons w last e rest next hStep _ ih =>
      rcases List.map_eq_cons_iff.mp hItems with
        ⟨item, tail, rfl, hItem, hTail⟩
      rcases item with fault | ⟨place, event⟩
      · cases hItem
      · cases hItem
        rw [Writer.run, hStep place]
        exact ih hTail

------------------------------------------------------------
-- Elements
------------------------------------------------------------

/- A tag as it comes back from an entry. -/
def storedTag
    (e : Event) : Event :=
  e.keyless.normalized

/- An attribute that is read comes back from an entry. -/
theorem readRequired_stored
    {β : Type}
    {attributes : List Attribute}
    {name value : String}
    {result : β}
    (grammar : String → Option β)
    (hName : name ≠ keyAttribute)
    (hValue : valueOf? attributes name = some value)
    (hRead : grammar (normalizeValue value) = some result)
    (place : Location)
    (element : String) :
    Element.readRequired
        ⟨place, element, storedAttributes attributes⟩ name grammar =
      .ok result := by
  have hStored := valueOf?_storedAttributes hName attributes
  rw [hValue, Option.map_some] at hStored
  unfold Element.readRequired Element.required Element.value?
  rw [hStored]
  change Element.read _ name grammar (normalizeValue value) = _
  unfold Element.read
  rw [hRead]

/- A segment that is read adds a command. -/
theorem steps_segment
    {w : Writer}
    {s : SegmentMarkup}
    {shape : SegmentShape α}
    (hDepth : 2 ≤ w.depth)
    (hShape : s.shape? = some shape) :
    Steps α w (s.events.map storedTag)
      { w with
        data := w.data
          ++ commandText shape.kind.letter.toString shape.points } := by
  rcases SegmentMarkup.shape?_eq_some.mp hShape with
    ⟨value, hValue, hPoints, _, hKind⟩
  rw [← hKind]
  have hRead :=
    readRequired_stored (Value.points? (α := α)) (by decide) hValue
      ((Value.points?_normalizeValue value).trans hPoints)
  have hText :
      ∀ place,
        segmentText α
            ⟨place, s.kind.element, storedAttributes s.attributes⟩ =
          .ok (commandText s.kind.letter.toString shape.points) := by
    intro place
    have hPoly :
        ∀ element letter,
          polyText α letter
              ⟨place, element, storedAttributes s.attributes⟩ =
            .ok (commandText letter shape.points) := by
      intro element letter
      unfold polyText
      rw [hRead place element]
      rfl
    unfold segmentText
    cases s.kind with
    | line => exact hPoly _ "L"
    | cubic => exact hPoly _ "C"
    | quadratic => exact hPoly _ "Q"
  have hOther : (s.kind.element == "PathFigure") = false := by
    cases s.kind <;> rfl
  refine
    .cons
      { w with
        data := w.data
          ++ commandText s.kind.letter.toString shape.points
        depth := w.depth + 1 }
      (fun place => ?_) (.cons _ (fun place => ?_) (.nil _))
  · change Writer.startElement α
      ⟨place, s.kind.element, storedAttributes s.attributes⟩
      { w with depth := w.depth + 1 } = _
    unfold Writer.startElement
    have hFirst : ¬ (w.depth + 1 == 1) = true := by
      rw [beq_iff_eq]
      omega
    have hSecond : ¬ (w.depth + 1 == 2) = true := by
      rw [beq_iff_eq]
      omega
    dsimp only
    rw [if_neg hFirst, if_neg hSecond, hOther,
      if_neg Bool.false_ne_true, hText place]
    rfl
  · change Except.ok (Writer.endElement s.kind.element _) = _
    unfold Writer.endElement
    dsimp only
    rw [hOther, Bool.false_and, if_neg Bool.false_ne_true]
    rfl

/- The text of a segment is a row of words. -/
theorem toList_commandText
    (s : SegmentShape α) :
    (commandText s.kind.letter.toString s.points).toList =
      s.words.flatMap fun w => ' ' :: w.chars := by
  have hPoints :
      (String.join
          (s.points.map fun p => " " ++ pointText p)).toList =
        (s.points.map Word.point).flatMap fun w => ' ' :: w.chars := by
    rw [toList_join, List.flatMap_map, List.flatMap_map]
    refine congrArg (List.flatMap · s.points) (funext fun p => ?_)
    rw [String.toList_append]
    rfl
  have hLetter : s.kind.letter.toString.toList = [s.kind.letter] := by
    cases s.kind <;> rfl
  unfold commandText
  rw [String.toList_append, String.toList_append, hPoints, hLetter]
  rfl

/- Segments that are read add their words. -/
theorem steps_segments
    {segments : List SegmentMarkup}
    {shapes : List (SegmentShape α)}
    {w : Writer}
    {words : List (Word α)}
    (hDepth : 2 ≤ w.depth)
    (hShapes : segments.mapM SegmentMarkup.shape? = some shapes)
    (hSome : words ≠ [])
    (hData : w.data.toList = joined words) :
    ∃ data,
      Steps α w ((segments.flatMap SegmentMarkup.events).map storedTag)
          { w with data := data } ∧
        data.toList =
          joined (words ++ shapes.flatMap SegmentShape.words) := by
  induction segments generalizing shapes w words with
  | nil =>
      rw [List.mapM_nil] at hShapes
      cases hShapes
      refine ⟨w.data, .nil w, ?_⟩
      rw [List.flatMap_nil, List.append_nil]
      exact hData
  | cons s segments ih =>
      rcases mapM_cons_eq_some.mp hShapes with
        ⟨shape, rest, hShape, hMore, rfl⟩
      have hFirst := steps_segment hDepth hShape
      have hText :
          (w.data ++ commandText shape.kind.letter.toString
              shape.points).toList =
            joined (words ++ shape.words) := by
        rw [String.toList_append, hData, toList_commandText,
          joined_append hSome]
      rcases ih (w := { w with
          data := w.data
            ++ commandText shape.kind.letter.toString shape.points })
        hDepth hMore (by simp [hSome]) hText with
        ⟨data, hSteps, hJoined⟩
      refine ⟨data, ?_, ?_⟩
      · rw [List.flatMap_cons, List.map_append]
        exact hFirst.append hSteps
      · rw [hJoined, List.flatMap_cons, List.append_assoc]

/- The data is some words, or the fill rule and a space. -/
def Written
    (data : String)
    (words : List (Word α)) : Prop :=
  data.toList = joined words ∨ words = [.nonZero] ∧ data = "F1 "

/- The space before a figure, if one is missing. -/
def gap
    (data : String) : String :=
  if data.isEmpty || data.toList.getLast? == some ' ' then ""
  else " "

/- A figure goes after what is written with one space between them. -/
theorem toList_startFigure
    {data : String}
    {words : List (Word α)}
    (hWritten : Written data words)
    (hValid : ∀ w ∈ words, w.Valid)
    (p : Point α) :
    (data ++ gap data ++ "M " ++ pointText p).toList =
      joined (words ++ [.letter 'M', .point p]) := by
  rcases hWritten with hData | ⟨rfl, rfl⟩
  · by_cases hSome : words = []
    · subst hSome
      have hEmpty : data = "" := String.toList_inj.mp hData
      subst hEmpty
      have hGap : gap "" = "" := rfl
      rw [hGap]
      simp [joined, Word.chars]
    · rcases getLast?_joined hSome hValid with ⟨c, hLast, hPlain⟩
      have hGap : gap data = " " := by
        unfold gap
        rw [hData, hLast]
        apply if_neg
        intro hEither
        rcases Bool.or_eq_true_iff.mp hEither with hEmpty | hSpace
        · rw [String.isEmpty_iff] at hEmpty
          rw [hEmpty] at hData
          rw [← hData] at hLast
          cases hLast
        · rw [beq_iff_eq, Option.some.injEq] at hSpace
          subst hSpace
          exact absurd hPlain (by decide)
      rw [hGap, joined_append hSome]
      simp [hData, Word.chars]
  · have hGap : gap "F1 " = "" := rfl
    rw [hGap]
    simp [joined, Word.chars]

/- A figure that is read starts with its first point. -/
theorem startFigure_stored
    {f : FigureMarkup}
    {shape : FigureShape α}
    (hShape : f.shape? = some shape)
    (place : Location)
    (w : Writer) :
    w.startFigure α
        ⟨place, "PathFigure", storedAttributes f.attributes⟩ =
      .ok { w with
        data := w.data ++ gap w.data ++ "M " ++ pointText shape.start
        closing := shape.closed } := by
  rcases FigureMarkup.shape?_eq_some.mp hShape with
    ⟨value, hValue, hStart, hClosed, _, _⟩
  have hRead :=
    readRequired_stored (Value.point? (α := α)) (by decide) hValue
      ((Value.point?_normalizeValue value).trans hStart) place
      "PathFigure"
  rw [← flag?_storedAttributes (by decide)] at hClosed
  unfold startFigure
  rw [hRead]
  unfold flag? at hClosed
  dsimp only [bind, Except.bind, Element.value?]
  cases hFlag : valueOf? (storedAttributes f.attributes) "IsClosed" with
  | none =>
      rw [hFlag] at hClosed
      rw [← Option.some.inj hClosed]
      rfl
  | some flag =>
      rw [hFlag] at hClosed
      dsimp only at hClosed ⊢
      unfold Element.read
      rw [hClosed]
      rfl

/- A figure that is read adds its words. -/
theorem steps_figure
    {f : FigureMarkup}
    {shape : FigureShape α}
    {data : String}
    {words : List (Word α)}
    (hShape : f.shape? = some shape)
    (hWritten : Written data words)
    (hValid : ∀ w ∈ words, w.Valid) :
    ∃ data',
      Steps α ⟨data, 2, false⟩ (f.events.map storedTag)
          ⟨data', 2, false⟩ ∧
        data'.toList = joined (words ++ shape.words) := by
  have hStart :
      ∀ place,
        Writer.step α ⟨data, 2, false⟩
            (place, .startTag "PathFigure"
              (storedAttributes f.attributes)) =
          .ok ⟨data ++ gap data ++ "M " ++ pointText shape.start, 3,
            shape.closed⟩ := by
    intro place
    exact startFigure_stored hShape place ⟨data, 3, false⟩
  have hFirst := toList_startFigure hWritten hValid shape.start
  rcases FigureMarkup.shape?_eq_some.mp hShape with
    ⟨_, _, _, _, _, hSegments⟩
  rcases steps_segments
    (w := ⟨data ++ gap data ++ "M " ++ pointText shape.start, 3,
      shape.closed⟩)
    (Nat.le_succ 2) hSegments (by simp) hFirst with
    ⟨data', hSteps, hData⟩
  have hEvents :
      f.events.map storedTag =
        .startTag "PathFigure" (storedAttributes f.attributes)
          :: ((f.segments.flatMap SegmentMarkup.events).map storedTag
            ++ [.endTag "PathFigure"]) := by
    unfold FigureMarkup.events
    rw [List.map_cons, List.map_append]
    rfl
  have hEnd :
      Steps α ⟨data', 3, shape.closed⟩ [.endTag "PathFigure"]
        ⟨if shape.closed then data' ++ " Z" else data', 2, false⟩ := by
    refine .cons _ (fun place => ?_) (.nil _)
    cases shape.closed <;> rfl
  rw [hEvents]
  refine
    ⟨_, .cons _ hStart (hSteps.append hEnd), ?_⟩
  have hWords :
      words ++ shape.words =
        (words ++ [.letter 'M', .point shape.start]
          ++ shape.segments.flatMap SegmentShape.words)
          ++ if shape.closed then [.letter 'Z'] else [] := by
    simp [FigureShape.words]
  rw [hWords]
  cases shape.closed with
  | false =>
      rw [if_neg Bool.false_ne_true, if_neg Bool.false_ne_true,
        List.append_nil]
      exact hData
  | true =>
      rw [if_pos rfl, if_pos rfl, joined_append (by simp),
        String.toList_append, hData]
      rfl

/- Figures that are read add their words. -/
theorem steps_figures
    {figures : List FigureMarkup}
    {shapes : List (FigureShape α)}
    {data : String}
    {words : List (Word α)}
    (hShapes : figures.mapM FigureMarkup.shape? = some shapes)
    (hWritten : Written data words)
    (hValid :
      ∀ w ∈ words ++ shapes.flatMap FigureShape.words, w.Valid) :
    ∃ data',
      Steps α ⟨data, 2, false⟩
          ((figures.flatMap FigureMarkup.events).map storedTag)
          ⟨data', 2, false⟩ ∧
        Written data' (words ++ shapes.flatMap FigureShape.words) := by
  induction figures generalizing shapes data words with
  | nil =>
      rw [List.mapM_nil] at hShapes
      cases hShapes
      refine ⟨data, .nil _, ?_⟩
      rw [List.flatMap_nil, List.append_nil]
      exact hWritten
  | cons f figures ih =>
      rcases mapM_cons_eq_some.mp hShapes with
        ⟨shape, rest, hShape, hMore, rfl⟩
      have hWords :
          words ++ (shape :: rest).flatMap FigureShape.words =
            (words ++ shape.words)
              ++ rest.flatMap FigureShape.words := by
        rw [List.flatMap_cons, List.append_assoc]
      rw [hWords] at hValid ⊢
      rcases steps_figure hShape hWritten
        (fun w hMem => hValid w (by simp [hMem])) with
        ⟨next, hFirst, hNext⟩
      rcases ih hMore (.inl hNext) hValid with
        ⟨data', hSteps, hWritten'⟩
      refine ⟨data', ?_, hWritten'⟩
      rw [List.flatMap_cons, List.map_append]
      exact hFirst.append hSteps

/- What is written is trimmed to its words. -/
theorem trimEnd_written
    {data : String}
    {words : List (Word α)}
    (hWritten : Written data words)
    (hValid : ∀ w ∈ words, w.Valid) :
    Text.trimEnd data.toList = joined words := by
  rcases hWritten with hData | ⟨rfl, rfl⟩
  · rw [hData]
    by_cases hSome : words = []
    · subst hSome
      rfl
    · rcases getLast?_joined hSome hValid with ⟨c, hLast, hPlain⟩
      unfold Text.trimEnd
      cases hBack : (joined words).reverse with
      | nil =>
          rw [List.reverse_eq_nil_iff.mp hBack] at hLast
          cases hLast
      | cons d back =>
          rw [List.getLast?_eq_head?_reverse, hBack] at hLast
          cases hLast
          rw [List.dropWhile_cons_of_neg (by simp [hPlain]), ← hBack,
            List.reverse_reverse]
  · rfl

end Writer

end Geometry

------------------------------------------------------------
-- Entries
------------------------------------------------------------

namespace GeometryMarkup

open Geometry.Writer

/- The entry that a geometry is stored in. -/
def entry
    (g : GeometryMarkup)
    (key : String) : Option ResourceEntry :=
  (ResourceEntry.begin key "PathGeometry" g.attributes).takeAll?
    g.inner

/- The figures of a geometry are not given as path data. -/
theorem valueOf?_figures
    (g : GeometryMarkup) :
    valueOf? g.attributes "Figures" = none := by
  unfold valueOf?
  rw [Option.map_eq_none_iff, List.find?_eq_none]
  intro a hMem hIs
  rw [beq_iff_eq] at hIs
  exact g.noFigures (hIs ▸ List.mem_map_of_mem hMem)

/- The attributes of a geometry start its path data. -/
theorem startGeometry_stored
    (g : GeometryMarkup)
    (place : Location) :
    Writer.startGeometry
        ⟨place, "PathGeometry", storedAttributes g.attributes⟩
        ⟨"", 2, false⟩ =
      ⟨if g.nonZero then "F1 " else "", 2, false⟩ := by
  unfold Writer.startGeometry Element.value?
  dsimp only
  rw [valueOf?_storedAttributes (by decide),
    valueOf?_storedAttributes (by decide), g.valueOf?_figures]
  unfold nonZero
  cases valueOf? g.attributes "FillRule" with
  | none => rfl
  | some value =>
      have hRule :
          (some (FillRule.ofName (normalizeValue value))
              == some FillRule.nonZero) =
            (some value == some "NonZero") := by
        rw [FillRule.ofName_normalizeValue]
        unfold FillRule.ofName
        simp only [Option.some_beq_some]
        cases value == "NonZero" <;> rfl
      dsimp only [Option.map_some, Option.map_none, Option.getD_none]
      simp only [String.append_empty, String.empty_append]
      exact congrArg
        (fun b : Bool => (⟨if b then "F1 " else "", 2, false⟩ : Writer))
        hRule

/-
  The path data of a stored geometry is made of the words of its
  figures.
-/
theorem pathData_markup
    {g : GeometryMarkup}
    {shapes : List (FigureShape α)}
    (hShapes : g.figures? = some shapes)
    (hPoints : ∀ f ∈ shapes, ∀ p ∈ f.points, PointReadsBack p)
    (key source : String) :
    ∃ entry,
      g.entry key = some entry ∧
        Geometry.pathData α source entry.markup =
          .ok (String.ofList
            (joined (geometryWords g.nonZero shapes))) := by
  have hName : IsName "PathGeometry" := by decide
  rcases ResourceEntry.readText_markup hName g.distinct g.wellNested
    key source with ⟨entry, hEntry, _, hItems⟩
  refine ⟨entry, hEntry, ?_⟩
  let lead : List (Word α) := if g.nonZero then [.nonZero] else []
  have hValid := geometryWords_valid hPoints g.nonZero
  have hWritten :
      Written (if g.nonZero then "F1 " else "") lead := by
    cases hRule : g.nonZero with
    | false =>
        left
        simp only [lead, hRule]
        rfl
    | true =>
        right
        simp only [lead, hRule]
        exact ⟨rfl, rfl⟩
  rcases steps_figures hShapes hWritten hValid with
    ⟨data, hFigures, hData⟩
  have hRoot :
      Steps α Writer.initial
        [storedTag (.startTag "PathGeometry" []),
          storedTag (.startTag "PathGeometry" g.attributes)]
        ⟨if g.nonZero then "F1 " else "", 2, false⟩ := by
    refine
      .cons ⟨"", 1, false⟩ (fun _ => rfl)
        (.cons _ (fun place => ?_) (.nil _))
    exact congrArg Except.ok (startGeometry_stored g place)
  have hEnds :
      Steps α ⟨data, 2, false⟩
        [storedTag (.endTag "PathGeometry"),
          storedTag (.endTag "PathGeometry")]
        ⟨data, 0, false⟩ :=
    .cons ⟨data, 1, false⟩ (fun _ => rfl)
      (.cons _ (fun _ => rfl) (.nil _))
  have hAll := hRoot.append (hFigures.append hEnds)
  have hEvents :
      ((ResourceEntry.markupEvents "PathGeometry" g.attributes
          g.inner).map fun e =>
        (.ok e.keyless.normalized : Except Error Event)) =
      ([storedTag (.startTag "PathGeometry" []),
          storedTag (.startTag "PathGeometry" g.attributes)]
        ++ (g.inner.map storedTag
          ++ [storedTag (.endTag "PathGeometry"),
            storedTag (.endTag "PathGeometry")])).map .ok := by
    unfold ResourceEntry.markupEvents
    simp [storedTag]
  rw [hEvents] at hItems
  unfold Geometry.pathData
  rw [hAll.run hItems]
  dsimp only [bind, Except.bind]
  rw [trimEnd_written hData hValid]
  rfl

end GeometryMarkup

end FixedPage
