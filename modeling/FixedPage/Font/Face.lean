import FixedPage.Font.CharacterMap
import FixedPage.Font.Compact.Table
import FixedPage.Font.Tables
import FixedPage.Font.Variation.Glyph
import FixedPage.Font.Variation.Metrics
import FixedPage.Glyph.Font

/-
  This file reads the metrics of a font file: advances, ink boxes
  of outlines, and how far the font reaches above and below the
  baseline.

  Main declarations:
    * `Face`
    * `Face.read`
    * `Face.font`
-/

namespace FixedPage

/-
  What is known of a font: units of the em, ascent and descent,
  advances by glyph, outlines by glyph, and character maps.
-/
structure Face where
  unitsPerEm : Nat
  ascender : Int
  descender : Int
  advance? : Nat → Option Nat
  box? : Nat → Option OutlineBox
  maps : List CharacterMap

namespace Face

------------------------------------------------------------
-- Headers
------------------------------------------------------------

/- Units of the em, and bytes that the place of an outline takes. -/
structure Header where
  unitsPerEm : Nat
  placeSize : Nat
deriving DecidableEq, Repr

/- Reads the header of a font. -/
def readHeader?
    (table : Bytes) : Option Header := do
  let _ ← table.slice? 0 54
  let units ← table.word? 18
  let format ← table.word? 50
  if units < 16 || 16384 < units then none
  else
    match format with
    | 0 => some ⟨units, 2⟩
    | 1 => some ⟨units, 4⟩
    | _ => none

/- Ascent, descent and the number of advances. -/
structure HorizontalHeader where
  ascender : Int
  descender : Int
  advances : Nat
deriving DecidableEq, Repr

/- Reads the header of horizontal metrics. -/
def readHorizontal?
    (table : Bytes) : Option HorizontalHeader := do
  let ascender ← table.signed? 4
  let descender ← table.signed? 6
  let advances ← table.word? 34
  pure ⟨ascender, descender, advances⟩

/- Reads the number of glyphs, of which there is at least one. -/
def readGlyphCount?
    (table : Bytes) : Option Nat := do
  let version ← table.long? 0
  let count ← table.word? 4
  if count == 0 then none
  else if version == 0x00005000 || version == 0x00010000 then
    some count
  else none

------------------------------------------------------------
-- Ascent and descent
------------------------------------------------------------

/- The metrics that a typographer gives and whether to use them. -/
structure TypographicMetrics where
  preferred : Bool
  ascender : Int
  descender : Int
  boxAscent : Int
  boxDescent : Int
deriving DecidableEq, Repr

/- Bytes that a version of the table of these metrics takes. -/
def typographicSize? : Nat → Option Nat
| 0 => some 78
| 1 => some 86
| 2 => some 96
| 3 => some 96
| 4 => some 96
| 5 => some 100
| _ => none

/- Reads the metrics that a typographer gives. -/
def readTypographic?
    (table : Bytes) : Option TypographicMetrics := do
  let version ← table.word? 0
  let size ← typographicSize? version
  let _ ← table.slice? 0 size
  let selection ← table.word? 62
  let ascender ← table.signed? 68
  let descender ← table.signed? 70
  let boxAscent ← table.signed? 74
  let boxDescent ← table.signed? 76
  pure ⟨4 ≤ version && selection.testBit 7, ascender, descender,
    boxAscent, Int.bmod (-boxDescent) (Nat.pow 2 16)⟩

/- Names of the values of a font that vary. -/
def nameAscent : Nat := 0x68617363
def nameDescent : Nat := 0x68647363
def nameBoxAscent : Nat := 0x68636C61
def nameBoxDescent : Nat := 0x68636C64

/-
  Adds the difference of a value to it, without a fraction, if
  the result is a number of two bytes.
-/
def vary
    (values? : Option NamedVariation)
    (name : Nat)
    (n : Int) : Int :=
  match values?.bind (·.delta? name) with
  | some delta =>
      (OutlineExtent.whole? (Float32.ofInt n + delta)).getD n
  | none => n

/-
  Chooses between a value of the header, one of a typographer
  and one of the largest box: the first that is not zero, unless
  the second is preferred.
-/
def choose
    (values? : Option NamedVariation)
    (typographic? : Option TypographicMetrics)
    (header : Int)
    (typographic : TypographicMetrics → Int)
    (name : Nat)
    (box : TypographicMetrics → Int)
    (boxName : Nat) : Int :=
  match typographic? with
  | none => header
  | some t =>
      let found := typographic t
      if t.preferred then vary values? name found
      else if header != 0 then header
      else if found != 0 then vary values? name found
      else vary values? boxName (box t)

------------------------------------------------------------
-- Glyphs
------------------------------------------------------------

/-
  The advance of a glyph. When there are fewer advances than
  glyphs, the last one applies to the rest.
-/
def readAdvance?
    (table : Bytes)
    (advances glyphs glyph : Nat) : Option Nat :=
  if advances == 0 || max advances glyphs ≤ glyph then none
  else do
    let _ ← table.slice? 0 (4 * advances)
    table.word? (4 * min glyph (advances - 1))

/-
  Where the outline of a glyph lies, given the table of places.
  Short places count in units of two bytes.
-/
def outlineRange?
    (places : Bytes)
    (placeSize glyphs glyph : Nat) : Option (Nat × Nat) := do
  let stored := places.size / placeSize % Nat.pow 2 16
  let count := min (min (glyphs + 1) (Nat.pow 2 16 - 1)) stored
  if count ≤ glyph + 1 then none
  else
    let place := fun i =>
      Bytes.number? .largestFirst placeSize places (placeSize * i)
    let unit := if placeSize == 2 then 2 else 1
    let first ← place glyph
    let last ← place (glyph + 1)
    if first < last then some (unit * first, unit * last) else none

/- The outlines of a font, if it has them by their places. -/
def readOutlines?
    (tables : FontTables)
    (placeSize glyphs : Nat) : Option Outlines := do
  let places ← tables.table? "loca"
  let outlines ← tables.table? "glyf"
  pure
    ⟨fun glyph => do
      let range ← outlineRange? places placeSize glyphs glyph
      let outline ← outlines.slice? range.1 (range.2 - range.1)
      pure outline.toList⟩

------------------------------------------------------------
-- Variations
------------------------------------------------------------

/- The number of axes of a font, and how its metrics vary. -/
structure Variation where
  axes : Nat
  advances? : Option AdvanceVariation
  values? : Option NamedVariation

/- Reads how the metrics of a font vary, unless it has no axes. -/
def readVariation?
    (tables : FontTables) : Option Variation := do
  let axes ← tables.table? "fvar" >>= DesignAxes.count?
  pure
    ⟨axes, tables.table? "HVAR" >>= AdvanceVariation.read? axes,
      tables.table? "MVAR" >>= NamedVariation.read? axes⟩

/-
  The advance of a glyph with its difference: one of its own, or
  else that of the end of the advance in the outline. A half is
  added to round a difference.
-/
def varyAdvance?
    (variation? : Option Variation)
    (endShift? : Nat → Nat → Option Float32)
    (glyph advance : Nat) : Option Nat :=
  match variation? with
  | none => some advance
  | some v =>
      let delta? :=
        match v.advances? with
        | some advances => advances.delta? glyph
        | none => endShift? v.axes glyph
      match delta? with
      | some delta =>
          CompactState.whole? (Nat.pow 2 16)
            (Float32.ofNat advance + (delta + 0.5))
      | none => some advance

------------------------------------------------------------
-- Faces
------------------------------------------------------------

/-
  The space that a glyph takes. Varied outlines come first, then
  plain ones, then compact fonts.
-/
def readExtent?
    (tables : FontTables)
    (axes : Nat)
    (outlines? : Option Outlines)
    (glyphs? : Option GlyphVariation) :
    Nat → Option OutlineExtent :=
  match glyphs?, outlines? with
  | some glyphs, some outlines => glyphs.extent? outlines axes
  | some _, none => fun _ => none
  | none, some outlines => outlines.extent?
  | none, none =>
      let bytes? := fun name => (tables.table? name).map Array.toList
      let font? :=
        (bytes? "CFF2" >>= CompactFont.readVaried? axes)
          <|> (bytes? "CFF " >>= CompactFont.readPlain?)
      fun glyph => font?.bind (·.extent? glyph)

/- Reads the font of a file. -/
def read
    (file : Bytes) : Except FontFault Face := do
  let tables ← FontTables.ofBytes file
  let header ←
    FontTables.need (tables.table? "head" >>= readHeader?) .noHeader
  let horizontal ←
    FontTables.need (tables.table? "hhea" >>= readHorizontal?)
      .noHorizontalHeader
  let glyphs ←
    FontTables.need (tables.table? "maxp" >>= readGlyphCount?)
      .noProfile
  let typographic? := tables.table? "OS/2" >>= readTypographic?
  let variation? := readVariation? tables
  let axes := (variation?.map Variation.axes).getD 0
  let outlines? := readOutlines? tables header.placeSize glyphs
  let glyphs? := tables.table? "gvar" >>= GlyphVariation.read?
  let extent? := readExtent? tables axes outlines? glyphs?
  let choose := choose (variation?.bind Variation.values?) typographic?
  pure
    { unitsPerEm := header.unitsPerEm
      ascender :=
        choose horizontal.ascender (·.ascender) nameAscent
          (·.boxAscent) nameBoxAscent
      descender :=
        choose horizontal.descender (·.descender) nameDescent
          (·.boxDescent) nameBoxDescent
      advance? := fun glyph => do
        let table ← tables.table? "hmtx"
        let advance ← readAdvance? table horizontal.advances glyphs glyph
        let endShift? := fun axes glyph => do
          let glyphs ← glyphs?
          let outlines ← outlines?
          glyphs.advanceShift? outlines axes glyph
        varyAdvance? variation? endShift? glyph advance
      box? := fun glyph => extent? glyph >>= OutlineExtent.box?
      maps := ((tables.table? "cmap").map CharacterMap.readAll).getD [] }

/- Glyph of a character. -/
def glyph?
    (f : Face)
    (c : Char) : Option Nat :=
  f.maps.findSome? (·.glyph? c.toNat)

------------------------------------------------------------
-- Fonts
------------------------------------------------------------

section

variable {α : Type} [Scalar α]

/- The scalar of a whole number. -/
def ofInt
    (n : Int) : α :=
  if n < 0 then -(Nat.cast n.natAbs) else Nat.cast n.natAbs

/- Takes font units to the em. -/
def toEm
    (f : Face)
    (n : Int) : α :=
  ofInt n / Nat.cast f.unitsPerEm

/- The ink box of an outline, the y axis pointing down. -/
def ink
    (f : Face)
    (box : OutlineBox) : Rectangle α where
  x := f.toEm box.left
  y := -(ofInt box.top) / Nat.cast f.unitsPerEm
  width := f.toEm (Int.bmod (box.right - box.left) (Nat.pow 2 16))
  height := f.toEm (Int.bmod (box.top - box.bottom) (Nat.pow 2 16))

/- Metrics of a glyph; a number that no glyph has gives zeros. -/
def metrics
    (f : Face)
    (glyph : Nat) : GlyphMetrics α :=
  if glyph < Nat.pow 2 16 then
    { advance := f.toEm ((f.advance? glyph).getD 0)
      ink := ((f.box? glyph).map f.ink).getD ⟨0, 0, 0, 0⟩ }
  else ⟨0, ⟨0, 0, 0, 0⟩⟩

/- The font as glyph runs see it. -/
def font
    (f : Face) : Font α where
  glyph? := f.glyph?
  metrics := f.metrics
  ascent := f.toEm f.ascender
  descent := -(ofInt f.descender) / Nat.cast f.unitsPerEm

end

end Face

end FixedPage
