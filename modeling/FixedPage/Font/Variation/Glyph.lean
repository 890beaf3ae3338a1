import FixedPage.Font.Component
import FixedPage.Font.Variation.Shift
import FixedPage.Font.Variation.Store

/-
  This file reads how the outlines of a variable font differ from
  the stored ones.

  Main declarations:
    * `GlyphVariation`
    * `GlyphVariation.read?`
    * `GlyphVariation.extent?`
    * `GlyphVariation.advanceShift?`
-/

namespace FixedPage

/-
  The variations of the outlines of a font: the number of axes,
  places in the design space that outlines share, and the
  stored variations by glyph.
-/
structure GlyphVariation where
  axes : Nat
  peaks : Array Int
  stored? : Nat → Option (List UInt8)

namespace GlyphVariation

------------------------------------------------------------
-- Reading
------------------------------------------------------------

/-
  The stored variation of a glyph, given where they lie. Short
  places count in units of two bytes.
-/
def slice?
    (places : List Nat)
    (unit : Nat)
    (variations : Bytes)
    (glyph : Nat) : Option (List UInt8) := do
  let first ← places[glyph]?
  let last ← places[glyph + 1]?
  if first == last then some []
  else if last < first then none
  else
    (variations.slice? (unit * first) (unit * (last - first))).map
      Array.toList

/- Reads the variations of a font. -/
def read?
    (table : Bytes) : Option GlyphVariation := do
  let version ← table.long? 0
  let axes ← table.word? 4
  let shared ← table.word? 6
  let sharedAt ← table.long? 8
  let glyphs ← table.word? 12
  let marks ← table.word? 14
  let variationsAt ← table.long? 16
  if version != 0x00010000 || axes == 0
      || Nat.pow 2 16 ≤ shared * axes
      || glyphs == Nat.pow 2 16 - 1
      || table.size < variationsAt then none
  else do
    let peaks ←
      Scan.find? (Scan.several (Scan.signed 2) (shared * axes))
        table.toList sharedAt
    let isLong := marks % 2 == 1
    let place := Scan.number (if isLong then 4 else 2)
    let places ←
      Scan.find? (Scan.several place (glyphs + 1)) table.toList 20
    let variations := table.extract variationsAt table.size
    pure
      ⟨axes, peaks.toArray,
        slice? places (if isLong then 1 else 2) variations⟩

/- What precedes the shifts of a list. -/
structure Lead where
  applies : Bool
  hasPoints : Bool
  size : Nat
deriving DecidableEq, Repr

/-
  Takes what precedes a list of shifts. At the origin of the
  design space a list applies whose place lies there as well,
  but for axes that it does not restrict.
-/
def takeLead
    (v : GlyphVariation) : Scan Lead := do
  let size ← Scan.word
  let marks ← Scan.word
  let start := marks % Nat.pow 2 12 * v.axes
  let peaks ←
    if marks.testBit 15 then Scan.several (Scan.signed 2) v.axes
    else if start + v.axes ≤ v.peaks.size then
      pure (v.peaks.extract start (start + v.axes)).toList
    else failure
  let hasPoints := marks.testBit 13
  if marks.testBit 14 then do
    let firsts ← Scan.several (Scan.signed 2) v.axes
    let lasts ← Scan.several (Scan.signed 2) v.axes
    let spans :=
      List.zipWith (fun first (peak, last) => DesignSpan.mk first peak last)
        firsts (peaks.zip lasts)
    pure ⟨spans.all DesignSpan.holdsOrigin, hasPoints, size⟩
  else pure ⟨peaks.all (· == 0), hasPoints, size⟩

/-
  Reads lists of shifts: what precedes them, and elsewhere the
  shifts themselves. `points` is the number of points.
-/
def readLists?
    (v : GlyphVariation)
    (points : Nat)
    (shared? : Option (List Nat)) :
    Nat → List UInt8 → List UInt8 → Option (List ShiftList)
| 0, _, _ => some []
| count + 1, leads, content => do
    let (lead, leads) ← v.takeLead.run leads
    if lead.applies then do
      let (distances?, rest) ←
        if lead.hasPoints then ShiftList.takeDistances.run content
        else some (shared?, content)
      let used := content.length - rest.length
      if lead.size < used then none
      else do
        let (bytes, content) ← (Scan.take (lead.size - used)).run rest
        let number := (distances?.map List.length).getD points
        let others ← v.readLists? points shared? count leads content
        pure (⟨distances?, ShiftList.readShifts number bytes⟩ :: others)
    else v.readLists? points shared? count leads (content.drop lead.size)

/- Most lists of shifts that an outline may have. -/
def maxLists : Nat :=
  32

/- Points behind those of an outline, for the metrics of a glyph. -/
def metricPoints : Nat :=
  4

/-
  The lists of shifts of a glyph whose outline has some points,
  in a font of some axes.
-/
def lists?
    (v : GlyphVariation)
    (axes glyph points : Nat) : Option (List ShiftList) := do
  let bytes ← v.stored? glyph
  if axes != v.axes then none
  else if bytes.isEmpty then some []
  else do
    let ((marks, place), leads) ←
      (do pure (← Scan.word, ← Scan.word) : Scan (Nat × Nat)).run bytes
    let count := marks % Nat.pow 2 12
    if count == 0 || maxLists < count || bytes.length < place then none
    else do
      let content := bytes.drop place
      let (shared?, content) ←
        if marks.testBit 15 then ShiftList.takeDistances.run content
        else some (none, content)
      v.readLists? (points + metricPoints) shared? count leads content

------------------------------------------------------------
-- Outlines
------------------------------------------------------------

/- Moves points by all the shifts they have. -/
def shiftAll
    (points : List OutlinePoint)
    (shifts : List (List PointShift)) : List OutlinePoint :=
  shifts.foldl (fun points shifts =>
    List.zipWith (fun p (s : PointShift) => s.apply p) points shifts)
    points

/- The space is not empty and has a box. -/
def measured?
    (e? : Option OutlineExtent) : Option OutlineExtent :=
  e?.filter fun e => e.box?.isSome

/-
  Adds the space that the outline of a glyph takes when it is
  varied and moved. Every outline inside needs a space.
-/
def cover?
    (v : GlyphVariation)
    (o : Outlines)
    (axes : Nat) :
    Nat → Nat → OutlineTransform → Option OutlineExtent →
      Option OutlineExtent
| 0, _, _, _ => none
| depth + 1, glyph, t, e? => do
    let bytes ← o.stored? glyph
    match ← Outlines.shape? bytes with
    | .contours points =>
        let lists ← v.lists? axes glyph points.length
        let shifted :=
          shiftAll (points.map ContourPoint.point)
            (lists.map (·.forPoints points))
        let reached := Contour.reached .start
          (List.zipWith (fun q (p : ContourPoint) =>
            (q, p.onCurve, p.isLast)) shifted points)
        measured? (OutlineExtent.cover e? (reached.map t.apply))
    | .components parts =>
        let lists ← v.lists? axes glyph parts.length
        let origin := parts.map fun _ => (⟨0, 0⟩ : OutlinePoint)
        let shifts :=
          shiftAll origin (lists.map (·.inOrder parts.length))
        let covered ←
          (parts.zip shifts).foldlM (fun e? (part, shift) => do
            let t :=
              if part.placed then t.after (.shift shift.x shift.y) else t
            let e ← v.cover? o axes depth part.glyph
              (t.after part.transform) e?
            pure (some e)) e?
        measured? covered
    | .blank => none

/- The space that the varied outline of a glyph takes. -/
def extent?
    (v : GlyphVariation)
    (o : Outlines)
    (axes glyph : Nat) : Option OutlineExtent :=
  v.cover? o axes Outlines.maxDepth glyph .identity none

/-
  How far the end of the advance of a glyph goes. It is the
  second point behind those of the outline.
-/
def advanceShift?
    (v : GlyphVariation)
    (o : Outlines)
    (axes glyph : Nat) : Option Float32 := do
  let size := o.size glyph
  let lists ← v.lists? axes glyph size
  let ends :=
    lists.map fun l =>
      (l.inOrder (size + metricPoints)).drop (size + 1)
  pure (ends.foldl (fun x shifts =>
    x + (shifts.headD PointShift.none).x) 0)

end GlyphVariation

end FixedPage
