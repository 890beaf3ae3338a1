import FixedPage.Font.Contour

/-
  This file reads outlines that are put together from the
  outlines of other glyphs, each moved to its place.

  Main declarations:
    * `GlyphComponent`
    * `GlyphComponent.readAll`
    * `Outlines`
    * `Outlines.extent?`
-/

namespace FixedPage

/-
  A part of an outline: the glyph whose outline it is and how it
  is moved. `placed` says that it comes with a shift.
-/
structure GlyphComponent where
  glyph : Nat
  placed : Bool
  transform : OutlineTransform

namespace GlyphComponent

/- Takes a number with fourteen binary digits behind the point. -/
def takeScale : Scan Float32 := do
  let n ← Scan.signed 2
  pure (Float32.ofInt n / 16384)

/-
  Takes a component; the result says whether another one
  follows. Without a shift there is nothing in its place.
-/
def takeNext : Scan (GlyphComponent × Bool) := do
  let marks ← Scan.word
  let glyph ← Scan.word
  let placed := marks.testBit 1
  let size := if marks.testBit 0 then 2 else 1
  let x ← if placed then Scan.signed size else pure 0
  let y ← if placed then Scan.signed size else pure 0
  let shift := OutlineTransform.shift (Float32.ofInt x) (Float32.ofInt y)
  let transform : OutlineTransform ←
    if marks.testBit 7 then do
      let xx ← takeScale
      let yx ← takeScale
      let xy ← takeScale
      let yy ← takeScale
      pure { shift with xx, yx, xy, yy }
    else if marks.testBit 6 then do
      let xx ← takeScale
      let yy ← takeScale
      pure { shift with xx, yy }
    else if marks.testBit 3 then do
      let scale ← takeScale
      pure { shift with xx := scale, yy := scale }
    else pure shift
  pure (⟨glyph, placed, transform⟩, marks.testBit 5)

/- Reads components up to the last one or to the end. -/
def readFrom :
    Nat → List UInt8 → List GlyphComponent
| 0, _ => []
| fuel + 1, bytes =>
    match takeNext.run bytes with
    | none => []
    | some ((component, more), rest) =>
        component :: if more then readFrom fuel rest else []

/- Reads the components of an outline. -/
def readAll
    (bytes : List UInt8) : List GlyphComponent :=
  readFrom bytes.length bytes

end GlyphComponent

------------------------------------------------------------
-- Outlines
------------------------------------------------------------

/- The stored outlines of a font by glyph. -/
structure Outlines where
  stored? : Nat → Option (List UInt8)

namespace Outlines

/- Bytes before the points or components of an outline. -/
def leadSize : Nat :=
  10

/- Most outlines that may lie inside each other. -/
def maxDepth : Nat :=
  32

/- What an outline is made of. -/
inductive Shape where
  | contours
      (points : List ContourPoint)
  | components
      (parts : List GlyphComponent)
  | blank

/- Reads what an outline is made of. -/
def shape?
    (bytes : List UInt8) : Option Shape := do
  let (contours, _) ← (Scan.signed 2).run bytes
  let rest := bytes.drop leadSize
  if 0 < contours then
    (ContourPoint.readAll? contours.toNat rest).map .contours
  else if contours < 0 then
    if leadSize ≤ bytes.length then
      some (.components (GlyphComponent.readAll rest))
    else none
  else some .blank

/-
  Adds the space that an outline takes when it is moved. Glyphs
  without an outline take none; an outline that cannot be read
  spoils those around it.
-/
def cover?
    (o : Outlines) :
    Nat → OutlineTransform → List UInt8 → Option OutlineExtent →
      Option (Option OutlineExtent)
| 0, _, _, _ => none
| depth + 1, t, bytes, e? => do
    match ← shape? bytes with
    | .contours points =>
        let reached := Contour.reached .start
          (points.map fun p => (p.point, p.onCurve, p.isLast))
        pure (OutlineExtent.cover e? (reached.map t.apply))
    | .components parts =>
        parts.foldlM (fun e? part =>
          match o.stored? part.glyph with
          | none => some e?
          | some inner =>
              o.cover? depth (t.after part.transform) inner e?) e?
    | .blank => pure e?

/- The space that the outline of a glyph takes. -/
def extent?
    (o : Outlines)
    (glyph : Nat) : Option OutlineExtent := do
  let bytes ← o.stored? glyph
  let e? ← o.cover? maxDepth .identity bytes none
  e?

/-
  Number of points or components of the outline of a glyph; none
  when it cannot be read.
-/
def size
    (o : Outlines)
    (glyph : Nat) : Nat :=
  match o.stored? glyph >>= shape? with
  | some (.contours points) => points.length
  | some (.components parts) => parts.length
  | _ => 0

end Outlines

end FixedPage
