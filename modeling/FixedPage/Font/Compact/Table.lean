import FixedPage.Font.Compact.Dictionary
import FixedPage.Font.Compact.Program

/-
  This file reads compact fonts from the table of a font file.
  Dictionaries say where the other parts are.

  Main declarations:
    * `CompactFont.readPlain?`
    * `CompactFont.readVaried?`
-/

namespace FixedPage

namespace CompactFont

------------------------------------------------------------
-- Dictionaries
------------------------------------------------------------

/- Operators of dictionaries. -/
def charsetOperator : Nat := 15
def encodingOperator : Nat := 16
def programsOperator : Nat := 17
def privateOperator : Nat := 18
def nearbyOperator : Nat := 19
def storeOperator : Nat := 24
def registryOperator : Nat := 1230
def fontsOperator : Nat := 1236
def selectOperator : Nat := 1237

/- The place that the last entry of an operator gives. -/
def place?
    (entries : List CompactEntry)
    (operator : Nat) : Option Nat :=
  (CompactEntry.last? entries operator).bind CompactEntry.place?

/- Every entry of the place of programs is valid. -/
def hasPrograms
    (entries : List CompactEntry) : Bool :=
  (entries.filter (·.operator == programsOperator)).all fun e =>
    e.place?.isSome

/- Bytes of a range of a table. -/
def slice?
    (table : List UInt8)
    (range : Nat × Nat) : Option (List UInt8) :=
  if range.1 + range.2 ≤ table.length then
    some ((table.drop range.1).take range.2)
  else none

/- The programs that a private dictionary leads to. -/
def nearbyAt?
    (countSize : Nat)
    (table : List UInt8)
    (start place : Nat) : Option CompactIndex :=
  Scan.find? (CompactIndex.takeNext countSize) table (start + place)

------------------------------------------------------------
-- Plain fonts
------------------------------------------------------------

/- Takes an encoding, which is not used. -/
def takeEncoding : Scan Unit := do
  let format ← Scan.byte
  let count ← Scan.byte
  match format % Nat.pow 2 7 with
  | 0 => discard (Scan.take count)
  | 1 => discard (Scan.take (2 * count))
  | _ => failure
  if format.testBit 7 then do
    let count ← Scan.byte
    discard (Scan.take (3 * count))
  else pure ()

/- The encoding is a well-known one or can be read. -/
def checkEncoding?
    (table : List UInt8)
    (place? : Option Nat) : Option Unit :=
  match place? with
  | some place =>
      if place ≤ 1 then some ()
      else Scan.find? takeEncoding table place
  | none => some ()

/- The nearby programs of a font with a single dictionary. -/
def readNearby?
    (table : List UInt8)
    (entries : List CompactEntry) : Option CompactIndex :=
  match (CompactEntry.last? entries privateOperator).bind
      CompactEntry.range? with
  | none => some .empty
  | some range => do
      let bytes ← slice? table range
      match place? (CompactEntry.readAll bytes) nearbyOperator with
      | none => some .empty
      | some place => nearbyAt? 2 table range.1 place

/-
  Takes the dictionary of a glyph from a list of ranges. Each
  range reaches to the first glyph of the next one.
-/
def takeSelected
    (glyph : Nat) :
    Nat → Nat → Nat → Scan Nat
| 0, _, _ => failure
| ranges + 1, first, dictionary => do
    let next ← Scan.word
    if first ≤ glyph && glyph < next then pure dictionary
    else do
      let following ← Scan.byte
      takeSelected glyph ranges next following

/- Takes what says which dictionary a glyph has. -/
def takeSelection
    (glyphs : Nat) : Scan (Nat → Option Nat) := do
  match ← Scan.byte with
  | 0 => do
      let dictionaries ← Scan.several Scan.byte glyphs
      pure fun glyph => dictionaries[glyph]?
  | 3 => do
      let rest ← get
      pure fun glyph =>
        ((do
          let ranges ← Scan.word
          let first ← Scan.word
          let dictionary ← Scan.byte
          if ranges == Nat.pow 2 16 - 1 then failure
          else takeSelected glyph ranges first dictionary :
          Scan Nat).run rest).map (·.1)
  | _ => failure

/- The first range of a private dictionary, if it is valid. -/
def privateRange?
    (font : List UInt8) : Option (Nat × Nat) := do
  let entry ← (CompactEntry.readAll font).find?
    (·.operator == privateOperator)
  entry.range?

/- The nearby programs of a glyph, given the dictionaries. -/
def selectNearby?
    (table : List UInt8)
    (fonts : CompactIndex)
    (select : Nat → Option Nat)
    (glyph : Nat) : Option CompactIndex := do
  let dictionary ← select glyph
  let font ← fonts.get? dictionary
  let range ← privateRange? font
  let bytes ← slice? table range
  let place ← place? (CompactEntry.readAll bytes) nearbyOperator
  nearbyAt? 2 table range.1 place

/- How to find nearby programs when there are many dictionaries. -/
def readSelection?
    (table : List UInt8)
    (entries : List CompactEntry)
    (glyphs : Nat) : Option (Nat → Option CompactIndex) := do
  let charset ← place? entries charsetOperator
  let fontsAt ← place? entries fontsOperator
  let selectAt ← place? entries selectOperator
  if charset ≤ 2 then none
  else do
    let fonts ← Scan.find? (CompactIndex.takeNext 2) table fontsAt
    let select ← Scan.find? (takeSelection glyphs) table selectAt
    pure (selectNearby? table fonts select)

/- Takes a list of objects only to get behind it. -/
def skipIndex : Scan Unit := do
  let count ← Scan.number 2
  if count == 0 then pure ()
  else do
    let size ← Scan.byte
    if size == 0 || 4 < size then failure
    else do
      let places ← Scan.several (CompactIndex.takePlace size) (count + 1)
      Scan.skip ((places.getLast?.join).getD 0)

/- Takes the first dictionary and the programs of all glyphs. -/
def takePlain : Scan (List CompactEntry × CompactIndex) := do
  let version ← Scan.byte
  Scan.skip 1
  let leadSize ← Scan.byte
  Scan.skip (1 + (leadSize - 4))
  if version != 1 then failure
  else do
    skipIndex
    let dictionaries ← CompactIndex.takeNext 2
    match dictionaries.get? 0 with
    | none => failure
    | some bytes => do
        let _ ← CompactIndex.takeNext 2
        let shared ← CompactIndex.takeNext 2
        pure (CompactEntry.readAll bytes, shared)

/- Reads a plain font. -/
def readPlain?
    (table : List UInt8) : Option CompactFont := do
  let ((entries, shared), _) ← takePlain.run table
  let programsAt ← place? entries programsOperator
  if programsAt == 0 || !hasPrograms entries then none
  else do
    let programs ← Scan.find? (CompactIndex.takeNext 2) table programsAt
    let glyphs := programs.size
    if glyphs == 0 then none
    else do
      let charset ←
        Charset.read? table (place? entries charsetOperator) glyphs
      if (CompactEntry.last? entries registryOperator).isSome then do
        let nearby? ← readSelection? table entries glyphs
        pure ⟨.plain charset, programs, shared, nearby?⟩
      else do
        checkEncoding? table (place? entries encodingOperator)
        let nearby ← readNearby? table entries
        pure ⟨.plain charset, programs, shared, fun _ => some nearby⟩

------------------------------------------------------------
-- Variable fonts
------------------------------------------------------------

/- Takes the dictionary and the programs of all glyphs. -/
def takeVaried : Scan (List CompactEntry × CompactIndex) := do
  let version ← Scan.byte
  Scan.skip 1
  let leadSize ← Scan.byte
  let size ← Scan.word
  Scan.skip (leadSize - 5)
  if version != 2 then failure
  else do
    let bytes ← Scan.take size
    let shared ← CompactIndex.takeNext 4
    pure (CompactEntry.readAll bytes, shared)

/-
  The nearby programs of the first dictionary that has some. The
  dictionaries before it have to be valid.
-/
def firstNearby?
    (table : List UInt8) :
    List (Option (List UInt8)) → Option CompactIndex
| some font :: rest =>
    match privateRange? font with
    | none => firstNearby? table rest
    | some range => do
        let bytes ← slice? table range
        let entry? := (CompactEntry.readAll bytes).find?
          (·.operator == nearbyOperator)
        match entry?.bind CompactEntry.place? with
        | none => firstNearby? table rest
        | some place => nearbyAt? 4 table range.1 place
| _ => some .empty

/- Reads the differences of a font, behind their size. -/
def readStore?
    (axes : Nat)
    (table : List UInt8)
    (place? : Option Nat) : Option (Option VariationStore) :=
  match place? with
  | none => some none
  | some place =>
      if table.length < place then none
      else (VariationStore.read? axes (table.drop (place + 2))).map some

/- Reads a variable font. -/
def readVaried?
    (axes : Nat)
    (table : List UInt8) : Option CompactFont := do
  let ((entries, shared), _) ← takeVaried.run table
  let programsAt ← place? entries programsOperator
  if programsAt == 0 || !hasPrograms entries then none
  else do
    let programs ← Scan.find? (CompactIndex.takeNext 4) table programsAt
    let store? ← readStore? axes table (place? entries storeOperator)
    let nearby ←
      match place? entries fontsOperator with
      | none => some .empty
      | some fontsAt => do
          let fonts ← Scan.find? (CompactIndex.takeNext 4) table fontsAt
          firstNearby? table ((List.range fonts.size).map fonts.get?)
    pure ⟨.varied store?, programs, shared, fun _ => some nearby⟩

end CompactFont

end FixedPage
