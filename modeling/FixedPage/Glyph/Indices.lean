import FixedPage.Glyph.Layout
import FixedPage.Glyph.Token
import FixedPage.Text.Utf16

/-
  This file lays out glyph runs. Glyph indices are entries
  separated by semicolons:

    entry   := cluster? INDEX? (',' ADVANCE? (',' U? (',' V)?)?)?
    cluster := '(' CODE_UNITS (':' GLYPHS)? ')'

  Advances and offsets are hundredths of the em. An entry
  without an index takes the glyph of the next character; once
  the entries run out, every remaining character gets a glyph.

  A machine takes one token at a time. Its mode says which field
  of an entry may come next; a token that fits no field is taken
  as the start of something new.

  Main declarations:
    * `Indices.Machine`
    * `Indices.Machine.emit`
    * `Indices.Machine.step`
    * `Indices.layout`
    * `layoutGlyphs`
-/

namespace FixedPage

namespace Indices

------------------------------------------------------------
-- Faults
------------------------------------------------------------

/- Why glyph indices are not accepted. -/
inductive Cause where
  | malformedNumber
      (text : String)
  | invalidIndex
      (number : String)
  | stray
      (found : String)
  | misplaced
      (found : String)
  | unexpected
      (wanted found : String)
deriving DecidableEq, Repr

/- Why glyph indices are not accepted, and at which byte. -/
structure Fault where
  offset : Nat
  cause : Cause
deriving DecidableEq, Repr

/- Wording of a cause. -/
def Cause.message : Cause → String
| .malformedNumber text => "invalid number '" ++ text ++ "'"
| .invalidIndex number => "invalid glyph index " ++ number
| .stray found => found
| .misplaced found => "unexpected " ++ found
| .unexpected wanted found =>
    "expected " ++ wanted ++ " but " ++ found ++ " found"

------------------------------------------------------------
-- Machine
------------------------------------------------------------

/- Which field the next token may fill. -/
inductive Mode where
  | entry
  | codeUnits
  | afterCodeUnits
  | clusterGlyphs
  | clusterEnd
  | advance
  | afterAdvance
  | horizontal
  | afterHorizontal
  | vertical
deriving DecidableEq, Repr

/-
  The fields of the entry under way and the cluster that it
  belongs to. `chars` characters of `text`, or the next one
  when zero, form the cluster, and `remaining` of its `spread`
  glyphs are still to come, counting the next one. Glyphs and
  clusters so far are held last first.
-/
structure Machine (α : Type) where
  mode : Mode
  text : List Char
  pen : Point α
  chars : Nat
  spread : Nat
  remaining : Nat
  index? : Option Nat
  advance? : Option α
  offset : Point α
  pending : Bool
  glyphs : List (PositionedGlyph α)
  clusters : List TextCluster

/- Largest count that a cluster can be given. -/
def maxCount : Nat :=
  Nat.pow 2 64 - 1

/- Largest glyph index. -/
def maxIndex : Nat :=
  Nat.pow 2 32 - 1

/- Reads a count; negative numbers count as zero. -/
def countOf
    {α : Type}
    [Scalar α]
    (x : α) : Nat :=
  min (Scalar.truncate (Scalar.max x 0)) maxCount

/- Number of characters that some code units reach into. -/
def charsOfUnits : Nat → List Char → Nat
| 0, _ => 0
| _ + 1, [] => 0
| n + 1, c :: rest =>
    1 + charsOfUnits (n + 1 - Text.Utf16.charLength c) rest

namespace Machine

variable {α : Type} [Scalar α]

/- The machine before the first token. -/
def initial
    (q : Placement α)
    (text : List Char) : Machine α where
  mode := .entry
  text := text
  pen := q.origin
  chars := 0
  spread := 1
  remaining := 1
  index? := none
  advance? := none
  offset := .origin
  pending := false
  glyphs := []
  clusters := []

/- Hundredths of the em. -/
def hundredths
    (x : α) : α :=
  x / Nat.cast 100

/- The glyph that the entry under way stands for. -/
def glyphIndex
    (m : Machine α)
    (f : ScaledFont α) : Nat :=
  match m.index?, m.text with
  | some index, _ => index
  | none, c :: _ => f.glyph c
  | none, [] => 0

/- The offset of the next glyph on the page. -/
def pageOffset
    (m : Machine α)
    (f : ScaledFont α)
    (q : Placement α) : Point α :=
  let u := q.direct m.offset.x
  let v := m.offset.y
  f.distance (if q.sideways then ⟨-v, u⟩ else ⟨u, v⟩)

/- The distance to the next glyph on the page. -/
def pageAdvance
    (m : Machine α)
    (f : ScaledFont α)
    (q : Placement α)
    (extents : GlyphExtents α) : Point α :=
  match m.advance? with
  | none => ⟨q.naturalAdvance f extents, 0⟩
  | some advance =>
      f.distance (if q.sideways then ⟨0, advance⟩ else ⟨advance, 0⟩)

/- Characters of the cluster under way; at least the next one. -/
def clusterChars
    (m : Machine α) : Nat :=
  if m.chars == 0 then min 1 m.text.length else m.chars

/-
  Places the glyph of the entry under way. The last glyph of a
  cluster ends it and takes its characters off the text.
-/
def emit
    (f : ScaledFont α)
    (q : Placement α)
    (m : Machine α) : Machine α :=
  let index := m.glyphIndex f
  let extents := f.extents index
  let offset := m.pageOffset f q
  let advance := m.pageAdvance f q extents
  let origin : Point α := ⟨m.pen.x + offset.x, m.pen.y - offset.y⟩
  let chars := m.clusterChars
  let placed : Machine α :=
    { m with
      mode := .entry
      pen := ⟨m.pen.x + q.direct advance.x, m.pen.y + advance.y⟩
      index? := none
      advance? := none
      offset := .origin
      pending := false
      glyphs := ⟨index, q.shift extents origin⟩ :: m.glyphs }
  if m.remaining ≤ 1 then
    { placed with
      text := m.text.drop chars
      clusters :=
        ⟨utf8Length (m.text.take chars), m.spread⟩ :: m.clusters
      chars := 0
      spread := 1
      remaining := 1 }
  else
    { placed with
      chars := chars
      remaining := m.remaining - 1 }

/- A token that the mode does not allow. -/
def refuse
    (wanted : String)
    (p : Placed α) : Except Fault (Machine α) :=
  .error ⟨p.offset, .unexpected wanted p.token.describe⟩

/- Takes a token as the start of an entry or of one of its fields. -/
def dispatch
    (f : ScaledFont α)
    (q : Placement α)
    (m : Machine α)
    (p : Placed α) : Except Fault (Machine α) :=
  match p.token with
  | .openCluster => .ok { m with mode := .codeUnits, pending := true }
  | .number x =>
      if Scalar.le 0 x && Scalar.le x (Nat.cast maxIndex) then
        .ok { m with
          mode := .entry
          index? := some (Scalar.truncate x)
          pending := true }
      else .error ⟨p.offset, .invalidIndex (Scalar.text x)⟩
  | .comma => .ok { m with mode := .advance, pending := true }
  | .semicolon => .ok (m.emit f q)
  | .stray _ => .error ⟨p.offset, .stray p.token.describe⟩
  | .colon => .error ⟨p.offset, .misplaced p.token.describe⟩
  | .closeCluster => .error ⟨p.offset, .misplaced p.token.describe⟩

/- Takes one token. -/
def step
    (f : ScaledFont α)
    (q : Placement α)
    (m : Machine α)
    (p : Placed α) : Except Fault (Machine α) :=
  match m.mode, p.token with
  | .codeUnits, .number x =>
      .ok { m with
        mode := .afterCodeUnits
        chars := charsOfUnits (countOf x) m.text }
  | .codeUnits, _ => refuse "number" p
  | .afterCodeUnits, .closeCluster => .ok { m with mode := .entry }
  | .afterCodeUnits, .colon => .ok { m with mode := .clusterGlyphs }
  | .afterCodeUnits, _ => refuse "':'" p
  | .clusterGlyphs, .number x =>
      .ok { m with
        mode := .clusterEnd
        spread := countOf x
        remaining := countOf x }
  | .clusterGlyphs, _ => refuse "number" p
  | .clusterEnd, .closeCluster => .ok { m with mode := .entry }
  | .clusterEnd, _ => refuse "')'" p
  | .advance, .number x =>
      .ok { m with
        mode := .afterAdvance
        advance? := some (hundredths x) }
  | .advance, .comma => .ok { m with mode := .horizontal }
  | .afterAdvance, .comma => .ok { m with mode := .horizontal }
  | .horizontal, .number x =>
      .ok { m with
        mode := .afterHorizontal
        offset := ⟨hundredths x, m.offset.y⟩ }
  | .horizontal, .comma => .ok { m with mode := .vertical }
  | .afterHorizontal, .comma => .ok { m with mode := .vertical }
  | .vertical, .number x =>
      .ok { m with
        mode := .entry
        offset := ⟨m.offset.x, hundredths x⟩ }
  | .vertical, _ => refuse "number" p
  | _, _ => m.dispatch f q p

/- What a mode cannot do without, if the data ends in it. -/
def Mode.required? : Mode → Option String
| .codeUnits => some "number"
| .afterCodeUnits => some "':'"
| .clusterGlyphs => some "number"
| .clusterEnd => some "')'"
| .vertical => some "number"
| _ => none

------------------------------------------------------------
-- End of the data
------------------------------------------------------------

omit [Scalar α] in
/- A cluster takes at least one character of a text that has one. -/
theorem clusterChars_pos
    {m : Machine α}
    (h : m.text ≠ []) : 0 < m.clusterChars := by
  have : 0 < m.text.length := List.length_pos_iff.2 h
  unfold clusterChars
  split
  · omega
  · rename_i hc
    have : m.chars ≠ 0 := by simpa using hc
    omega

/-
  Placing a glyph uses up text or one of the glyphs that the
  cluster still has to come.
-/
theorem emit_decreases
    (f : ScaledFont α)
    (q : Placement α)
    {m : Machine α}
    (h : m.text ≠ []) :
    (m.emit f q).text.length < m.text.length ∨
      (m.emit f q).text.length = m.text.length ∧
        (m.emit f q).remaining < m.remaining := by
  have hlen : 0 < m.text.length := List.length_pos_iff.2 h
  have hchars := clusterChars_pos h
  unfold emit
  dsimp only
  split
  · left
    simp only [List.length_drop]
    omega
  · right
    exact ⟨rfl, by dsimp only; omega⟩

/- Places glyphs until no text is left. -/
def drain
    (f : ScaledFont α)
    (q : Placement α)
    (m : Machine α) : Machine α :=
  if h : m.text = [] then m
  else
    have := emit_decreases f q h
    drain f q (m.emit f q)
termination_by (m.text.length, m.remaining)
decreasing_by
  rcases this with h | ⟨h₁, h₂⟩
  · exact Prod.Lex.left _ _ h
  · rw [h₁]
    exact Prod.Lex.right _ h₂

/-
  Ends the data: an entry under way gets its glyph, and so does
  a run without any.
-/
def finish
    (f : ScaledFont α)
    (q : Placement α)
    (m : Machine α) : GlyphLayout α :=
  let m :=
    if m.pending || !m.text.isEmpty || m.glyphs.isEmpty then
      m.emit f q
    else m
  let m := m.drain f q
  ⟨m.glyphs.reverse, m.clusters.reverse⟩

/- Takes all tokens and ends the data. -/
def run
    (f : ScaledFont α)
    (q : Placement α)
    (ending : PathData.Ending)
    (m : Machine α) :
    List (Placed α) → Except Fault (GlyphLayout α)
| [] =>
    match ending with
    | .malformed offset text =>
        .error ⟨offset, .malformedNumber text⟩
    | .complete offset =>
        match Mode.required? m.mode with
        | some wanted =>
            .error ⟨offset, .unexpected wanted "end of data"⟩
        | none => .ok (m.finish f q)
| p :: rest =>
    match m.step f q p with
    | .ok next => next.run f q ending rest
    | .error fault => .error fault

end Machine

/- Lays out a text by glyph indices. -/
def layout
    {α : Type}
    [Scalar α]
    (f : ScaledFont α)
    (q : Placement α)
    (text : List Char)
    (indices : List Char) : Except Fault (GlyphLayout α) :=
  let lexemes : Lexemes α := scan 0 indices
  (Machine.initial q text).run f q lexemes.ending lexemes.tokens

end Indices

------------------------------------------------------------
-- Glyph runs
------------------------------------------------------------

/- Why a glyph run cannot be laid out. -/
inductive GlyphRunFault where
  | indices
      (fault : Indices.Fault)
  | nothingToDraw
deriving DecidableEq, Repr

/-
  Lays out a glyph run. Empty glyph indices count as absent; a
  run needs text or glyph indices.
-/
def layoutGlyphs
    {α : Type}
    [Scalar α]
    (f : ScaledFont α)
    (q : Placement α)
    (text : String)
    (indices? : Option String) :
    Except GlyphRunFault (GlyphLayout α) :=
  match indices?.filter (fun indices => !indices.isEmpty) with
  | some indices =>
      match Indices.layout f q text.toList indices.toList with
      | .ok layout => .ok layout
      | .error fault => .error (.indices fault)
  | none =>
      if text.isEmpty then .error .nothingToDraw
      else .ok (.ofText f q q.origin text.toList)

end FixedPage
