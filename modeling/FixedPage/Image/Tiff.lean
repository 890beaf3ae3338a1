import FixedPage.Image.Tiff.Layout

/-
  This file decodes images in the TIFF format. The rows of their
  pieces are expanded and joined; samples that are stored by
  their differences are summed up.

  Main declarations:
    * `Tiff.Layout.samplesOf`
    * `Tiff.Layout.plane?`
    * `Tiff.decode?`
-/

namespace FixedPage.Tiff

------------------------------------------------------------
-- Samples
------------------------------------------------------------

/- Sums up numbers, each with the one some places before it. -/
def sumUp
    (modulus stride : Nat)
    (numbers : List Nat) : Array Nat :=
  numbers.foldl (fun sums n =>
    let i := sums.size
    let before := if i < stride then 0 else sums.getD (i - stride) 0
    sums.push ((n + before) % modulus)) #[]

/- Numbers whose bytes are apart, the highest of all first. -/
def joinBytes
    (bytes : Array Nat) : List Nat :=
  let count := bytes.size / 4
  (List.range count).map fun i =>
    (List.range 4).foldl
      (fun n part => 256 * n + bytes.getD (count * part + i) 0) 0

/- The bits of a row. -/
def bitsOf
    (row : Bytes)
    (count : Nat) : List Nat :=
  (List.range count).map fun i =>
    (row.getD (i / 8) 0).toNat >>> (7 - i % 8) % 2

/- The numbers of a row. -/
def numbersOf
    (order : ByteOrder)
    (size : Nat)
    (row : Bytes)
    (count : Nat) : List Nat :=
  (List.range count).map fun i =>
    (Bytes.number? order size row (size * i)).getD 0

namespace Layout

/- The samples of a row before they are summed up. -/
def storedSamples
    (l : Layout)
    (order : ByteOrder)
    (row : Bytes)
    (count : Nat) : List Nat :=
  if l.bits == 1 then bitsOf row count
  else numbersOf order (l.bits / 8) row count

/- The samples of a row of some pixels. -/
def samplesOf
    (l : Layout)
    (order : ByteOrder)
    (row : Bytes)
    (pixels : Nat) : Array Nat :=
  let stored := l.storedSamples order row (pixels * l.stride)
  let samples :=
    match l.prediction with
    | .none => stored.toArray
    | .difference => sumUp (Nat.pow 2 l.bits) l.stride stored
    | .byteDifference =>
        (joinBytes
          (sumUp 256 l.stride (row.toList.map UInt8.toNat))).toArray
  if l.isInverted then samples.map (Nat.pow 2 l.bits - 1 - ·)
  else samples

------------------------------------------------------------
-- Pieces
------------------------------------------------------------

/- Bytes of a row of some pixels. -/
def rowBytes
    (l : Layout)
    (pixels : Nat) : Nat :=
  (pixels * l.stride * l.bits + 7) / 8

/-
  The samples of the rows of a piece that lie in the image. What
  is left over at the end of the last row need not be stored,
  unless bytes of it are mixed with the others.
-/
def pieceRows?
    (l : Layout)
    (fs : Fields)
    (x y : Nat)
    (place : Nat × Nat) : Option (List (Array Nat)) := do
  let columns := min l.pieces.width (l.width - x)
  let rows := min l.pieces.height (l.height - y)
  let step := l.rowBytes l.pieces.width
  let used := min step (l.rowBytes columns)
  let isMixed := l.prediction == .byteDifference
  let last := if isMixed then step else used
  let data ←
    l.packing.expand? fs.file place.1 place.2 ((rows - 1) * step + last)
  pure <| (List.range rows).map fun i =>
    let row := data.extract (i * step) (i * step + last)
    (l.samplesOf fs.order row l.pieces.width).extract 0
      (columns * l.stride)

/- The rows of the pieces that lie side by side. -/
def bandRows?
    (l : Layout)
    (fs : Fields)
    (y : Nat)
    (places : List (Nat × Nat)) : Option (List (Array Nat)) := do
  let pieces ←
    places.zipIdx.mapM fun (place, i) =>
      l.pieceRows? fs (i * l.pieces.width) y place
  match pieces with
  | first :: rest =>
      pure (rest.foldl (List.zipWith (· ++ ·)) first)
  | [] => none

/- The rows of a plane. -/
def plane?
    (l : Layout)
    (fs : Fields)
    (number : Nat) : Option (Array (Array Nat)) := do
  let across := Pieces.along l.width l.pieces.width
  let down := Pieces.along l.height l.pieces.height
  let bands ←
    (List.range down).mapM fun j =>
      let start := (number * down + j) * across
      let places := (l.pieces.places.drop start).take across
      l.bandRows? fs (j * l.pieces.height) places
  pure bands.flatten.toArray

------------------------------------------------------------
-- Images
------------------------------------------------------------

/- The samples of the pixel at a place. -/
def pixelSamples
    (l : Layout)
    (planes : Array (Array (Array Nat)))
    (x y : Nat) : List Nat :=
  (List.range l.model.samples).map fun i =>
    let (plane, place) :=
      if l.isPlanar then (i, x) else (0, x * l.samples + i)
    ((planes.getD plane #[]).getD y #[]).getD place 0

/- The image of a layout. -/
def image?
    (l : Layout)
    (fs : Fields) : Option Raster := do
  let planes ← (List.range l.planes).mapM fun i => l.plane? fs i
  let pixelAt := fun (y x : Nat) =>
    l.model.pixel l.bits (l.pixelSamples planes.toArray x y)
  let pixels :=
    (List.range l.height).flatMap fun y =>
      (List.range l.width).map (pixelAt y)
  pure ⟨l.width, l.height, pixels⟩

end Layout

/- Decodes an image. -/
def decode?
    (file : Bytes) : Option Raster := do
  let fs ← Fields.read? file
  let l ← Layout.read? fs
  l.image? fs

end FixedPage.Tiff
