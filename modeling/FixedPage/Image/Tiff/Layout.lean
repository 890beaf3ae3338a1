import FixedPage.Decimal.Machine
import FixedPage.Image.Raster
import FixedPage.Image.Tiff.Field
import FixedPage.Image.Tiff.Packing

/-
  This file reads from the fields of an image in the TIFF format
  what its samples stand for and where they are stored.

  Main declarations:
    * `Level.ofWord`
    * `Level.ofReal`
    * `Level.ofInk`
    * `Tiff.ColorModel`
    * `Tiff.Prediction`
    * `Tiff.Pieces`
    * `Tiff.Layout`
    * `Tiff.Layout.read?`
-/

------------------------------------------------------------
-- Levels of eight bits
------------------------------------------------------------

namespace FixedPage.Level

/- The level nearest to a sample of 16 bits. -/
def ofWord
    (n : Nat) : Nat :=
  (n + 128) / 257

/-
  The level nearest to a part of one, given by the bits of a
  number of single precision. What is no number counts as one.
-/
def ofReal
    (bits : Nat) : Nat :=
  let x := (Float32.ofBits bits.toUInt32).toFloat
  let part := if x < 1.0 then (if x < 0.0 then 0.0 else x) else 1.0
  (single (part * 255.0)).round.toUInt64.toNat

/-
  The light that an ink and black leave, where `most` is the
  largest amount of each.
-/
def ofInk
    (most ink black : Nat) : Nat :=
  let m := Nat.toFloat most
  let lightness := single (1.0 - single (Nat.toFloat black / m))
  (single (Nat.toFloat (most - ink) * lightness)).toUInt64.toNat

end FixedPage.Level

namespace FixedPage.Tiff

------------------------------------------------------------
-- Colors
------------------------------------------------------------

/- What the samples of a pixel stand for. -/
inductive ColorModel where
  | gray
  | rgb
  | rgbAlpha
  | inks
deriving DecidableEq, Repr

namespace ColorModel

/- What further samples mean that are an opacity. -/
def isAlpha
    (further : List Nat) : Bool :=
  further == [1] || further == [2]

/-
  The model of a kind of colors, given the number of samples and
  the meanings of those that are not part of the color.
-/
def ofNumbers?
    (kind samples : Nat)
    (further : List Nat) : Option ColorModel :=
  if samples < further.length then none
  else
    match kind, samples - further.length with
    | 0, _ => if samples == 1 then some .gray else none
    | 1, _ => if samples == 1 then some .gray else none
    | 2, 3 => some (if isAlpha further then .rgbAlpha else .rgb)
    | 2, 4 => if further.isEmpty then some .rgbAlpha else none
    | 5, 4 => if isAlpha further then none else some .inks
    | _, _ => none

/- Number of samples that a pixel uses. -/
def samples : ColorModel → Nat
| .gray => 1
| .rgb => 3
| .rgbAlpha => 4
| .inks => 4

/- Widths that samples may have. -/
def widths : ColorModel → List Nat
| .gray => [1, 8, 16]
| .rgb => [8, 16, 32]
| .rgbAlpha => [8, 16, 32]
| .inks => [8, 16]

/- The level of a sample of some bits. -/
def level
    (bits n : Nat) : UInt8 :=
  UInt8.ofNat <|
    match bits with
    | 1 => 255 * n
    | 8 => n
    | 16 => Level.ofWord n
    | _ => Level.ofReal n

/- The level that an ink and black leave of a color. -/
def inkLevel
    (bits black ink : Nat) : UInt8 :=
  level bits (Level.ofInk (Nat.pow 2 bits - 1) ink black)

/- The pixel of some samples. -/
def pixel
    (model : ColorModel)
    (bits : Nat)
    (samples : List Nat) : Pixel :=
  match model, samples with
  | .gray, [g] => .gray (level bits g) 255
  | .rgb, [r, g, b] => ⟨level bits r, level bits g, level bits b, 255⟩
  | .rgbAlpha, [r, g, b, a] =>
      ⟨level bits r, level bits g, level bits b, level bits a⟩
  | .inks, [c, m, y, k] =>
      ⟨inkLevel bits k c, inkLevel bits k m, inkLevel bits k y, 255⟩
  | _, _ => ⟨0, 0, 0, 0⟩

end ColorModel

------------------------------------------------------------
-- Samples
------------------------------------------------------------

/- What is stored of a sample. -/
inductive Prediction where
  | none
  | difference
  | byteDifference
deriving DecidableEq, Repr

/- The prediction of a number. -/
def Prediction.ofNumber? : Nat → Option Prediction
| 1 => some .none
| 2 => some .difference
| 3 => some .byteDifference
| _ => Option.none

/-
  Samples of some bits may be stored by a prediction. Numbers of
  32 bits have a fraction unless nothing is said of them.
-/
def Prediction.allows
    (prediction : Prediction)
    (bits : Nat)
    (formats : List Nat) : Bool :=
  match prediction with
  | .none => true
  | .difference => 8 ≤ bits
  | .byteDifference => bits == 32 && !formats.isEmpty

/- The kinds of numbers that samples of some bits may be. -/
def allowsFormats
    (bits : Nat)
    (formats : List Nat) : Bool :=
  formats.all fun format => format == (if bits == 32 then 3 else 1)

------------------------------------------------------------
-- Pieces
------------------------------------------------------------

/-
  The pieces that an image is stored in: their width and height,
  and offset and size of each.
-/
structure Pieces where
  width : Nat
  height : Nat
  places : List (Nat × Nat)
deriving DecidableEq, Repr

namespace Pieces

/- How many pieces lie along an axis of an image. -/
def along
    (size pieceSize : Nat) : Nat :=
  (size + pieceSize - 1) / pieceSize

/- Checks that there are as many pieces as an image needs. -/
def ofLists?
    (width height pieceWidth pieceHeight planes : Nat)
    (offsets sizes : List Nat) : Option Pieces :=
  if pieceWidth == 0 || pieceHeight == 0
      || offsets.length != sizes.length
      || offsets.length
        != along width pieceWidth * along height pieceHeight * planes
  then none
  else some ⟨pieceWidth, pieceHeight, offsets.zip sizes⟩

/- Reads the pieces of an image: strips or tiles, not both. -/
def read?
    (fs : Fields)
    (width height planes : Nat) : Option Pieces := do
  let isStrips :=
    [Number.stripOffsets, Number.stripSizes].map fs.has
  let isTiles := [Number.tileOffsets, Number.tileSizes].map fs.has
  if isStrips == [true, true] && isTiles == [false, false] then
    let offsets ← fs.list? Number.stripOffsets []
    let sizes ← fs.list? Number.stripSizes []
    let rows ← fs.optional? Number.stripRows height
    ofLists? width height width rows planes offsets sizes
  else if isStrips == [false, false] && isTiles == [true, true] then
    let tileWidth ← fs.required? Number.tileWidth
    let tileHeight ← fs.required? Number.tileHeight
    let offsets ← fs.list? Number.tileOffsets []
    let sizes ← fs.list? Number.tileSizes []
    ofLists? width height tileWidth tileHeight planes offsets sizes
  else none

end Pieces

------------------------------------------------------------
-- Layouts
------------------------------------------------------------

/- Where the samples of an image are and what they stand for. -/
structure Layout where
  width : Nat
  height : Nat
  samples : Nat
  bits : Nat
  model : ColorModel
  isInverted : Bool
  isPlanar : Bool
  packing : Packing
  prediction : Prediction
  pieces : Pieces

namespace Layout

/- Most bytes of an image and of a piece of it. -/
def maxBytes : Nat :=
  Nat.pow 2 29

/- The width of all samples, which is given once or for each. -/
def commonBits?
    (samples : Nat)
    (bits : List Nat) : Option Nat :=
  match bits with
  | first :: rest =>
      if rest.all (· == first)
          && (bits.length == samples || bits.length == 1) then
        some first
      else none
  | [] => none

/- Samples of a pixel that are stored together. -/
def stride
    (l : Layout) : Nat :=
  if l.isPlanar then 1 else l.samples

/- Number of planes, each of which holds some of the samples. -/
def planes
    (l : Layout) : Nat :=
  if l.isPlanar then l.samples else 1

/- No piece says that it is larger than an image may be. -/
def isSmall
    (l : Layout) : Bool :=
  let bytes := l.width * l.height * l.model.samples * l.bits / 8
  2 * bytes ≤ maxBytes
    && l.pieces.places.all fun (_, size) =>
      size + 2 * bytes ≤ maxBytes

/- Reads the layout of an image. -/
def read?
    (fs : Fields) : Option Layout := do
  let width ← fs.required? Number.width
  let height ← fs.required? Number.height
  let kind ← fs.required? Number.colors
  let packing ← Packing.ofNumber? (← fs.optional? Number.packing 1)
  let samples ← fs.optional? Number.samples 1
  let further ← fs.list? Number.furtherSamples []
  let formats ← fs.list? Number.formats []
  let bits ← commonBits? samples (← fs.list? Number.bits [1])
  let prediction ←
    Prediction.ofNumber? (← fs.optional? Number.prediction 1)
  let arrangement ← fs.optional? Number.arrangement 1
  let model ← ColorModel.ofNumbers? kind samples further
  let isPlanar := arrangement == 2
  let planes := if isPlanar then samples else 1
  if width == 0 || height == 0 || !model.widths.contains bits
      || !allowsFormats bits formats
      || !prediction.allows bits formats
      || (arrangement != 1 && arrangement != 2) then none
  else
    let pieces ← Pieces.read? fs width height planes
    let l : Layout :=
      ⟨width, height, samples, bits, model, kind == 0, isPlanar,
        packing, prediction, pieces⟩
    if l.isSmall then pure l else none

end Layout

end FixedPage.Tiff
