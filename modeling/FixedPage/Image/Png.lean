import FixedPage.Image.Inflate
import FixedPage.Image.Raster

/-
  This file decodes images in the PNG format: chunks of which the
  first gives the layout of the pixels and others their
  compressed rows, each filtered by what precedes it.

  Main declarations:
    * `Png.Header`
    * `Png.restoreRow?`
    * `Png.Header.pixel`
    * `Png.Setup`
    * `Png.decode?`
-/

namespace FixedPage.Png

------------------------------------------------------------
-- Chunks
------------------------------------------------------------

/- The first bytes of every file. -/
def signature : Bytes :=
  #[0x89, 0x50, 0x4E, 0x47, 0x0D, 0x0A, 0x1A, 0x0A]

/- A named piece of a file. -/
structure Chunk where
  name : Nat
  content : Bytes

/- One step of a checksum over a bit. -/
def checksumBit
    (n : Nat) : Nat :=
  if n % 2 == 1 then 0xEDB88320 ^^^ (n / 2) else n / 2

/- One step of a checksum over a byte. -/
def checksumByte
    (n : Nat)
    (b : UInt8) : Nat :=
  Nat.repeat checksumBit 8 (n ^^^ b.toNat)

/- Checksum of some bytes. -/
def checksum
    (b : Bytes) : Nat :=
  b.foldl checksumByte 0xFFFFFFFF ^^^ 0xFFFFFFFF

/- Chunk names, read as numbers. -/
def nameHeader : Nat := 0x49484452
def namePalette : Nat := 0x504C5445
def nameTransparency : Nat := 0x74524E53
def nameData : Nat := 0x49444154

/- A chunk that readers may leave out, by its first letter. -/
def isOptional
    (name : Nat) : Bool :=
  name.testBit 29

/-
  Reads the chunks up to the end of the data. Optional chunks
  whose checksum is wrong are left out.
-/
def chunks?
    (file : Bytes) :
    Nat → Bool → Nat → Option (List Chunk)
| 0, _, _ => none
| fuel + 1, inData, offset => do
    let size ← file.long? offset
    let name ← file.long? (offset + 4)
    if inData && name != nameData then pure []
    else do
      let content ← file.slice? (offset + 8) size
      let checked ← file.slice? (offset + 4) (4 + size)
      let sum ← file.long? (offset + 8 + size)
      let next := offset + 12 + size
      if sum == checksum checked then do
        let rest ← chunks? file fuel (name == nameData) next
        pure (⟨name, content⟩ :: rest)
      else if isOptional name then chunks? file fuel false next
      else none

------------------------------------------------------------
-- Headers
------------------------------------------------------------

/- What the samples of a pixel stand for. -/
inductive ColorModel where
  | gray
  | rgb
  | indexed
  | grayAlpha
  | rgbAlpha
deriving DecidableEq, Repr

namespace ColorModel

/- The model of a number, if it allows samples of some bits. -/
def ofNumber?
    (number depth : Nat) : Option ColorModel :=
  let wide := depth == 8 || depth == 16
  let narrow := depth == 1 || depth == 2 || depth == 4
  match number with
  | 0 => if narrow || wide then some .gray else none
  | 2 => if wide then some .rgb else none
  | 3 => if narrow || depth == 8 then some .indexed else none
  | 4 => if wide then some .grayAlpha else none
  | 6 => if wide then some .rgbAlpha else none
  | _ => none

/- Number of samples of a pixel. -/
def samples : ColorModel → Nat
| .gray => 1
| .rgb => 3
| .indexed => 1
| .grayAlpha => 2
| .rgbAlpha => 4

end ColorModel

/- Layout of the pixels of an image. -/
structure Header where
  width : Nat
  height : Nat
  depth : Nat
  model : ColorModel
  interlaced : Bool
deriving DecidableEq, Repr

/- Reads the layout of the pixels. -/
def readHeader?
    (content : Bytes) : Option Header := do
  let width ← content.long? 0
  let height ← content.long? 4
  let depth ← content[8]?
  let model ← content[9]?
  let compression ← content[10]?
  let filter ← content[11]?
  let interlace ← content[12]?
  let model ← ColorModel.ofNumber? model.toNat depth.toNat
  if width == 0 || height == 0 || compression != 0 || filter != 0
      || 1 < interlace || content.size != 13 then none
  else pure ⟨width, height, depth.toNat, model, interlace == 1⟩

namespace Header

/- Bits of a pixel. -/
def pixelBits
    (h : Header) : Nat :=
  h.depth * h.model.samples

/- Bytes of a row of some pixels. -/
def rowBytes
    (h : Header)
    (width : Nat) : Nat :=
  (width * h.pixelBits + 7) / 8

/- Distance to the byte before that a filter looks at. -/
def step
    (h : Header) : Nat :=
  max 1 (h.pixelBits / 8)

end Header

------------------------------------------------------------
-- Filters
------------------------------------------------------------

/- The neighbor that is nearest to `left + above - corner`. -/
def nearest
    (left above corner : UInt8) : UInt8 :=
  let a : Int := left.toNat
  let b : Int := above.toNat
  let c : Int := corner.toNat
  let da := (b - c).natAbs
  let db := (a - c).natAbs
  let dc := (a + b - 2 * c).natAbs
  if da ≤ db && da ≤ dc then left
  else if db ≤ dc then above
  else corner

/- What a filter predicts of a byte. -/
def predict?
    (filter : UInt8)
    (left above corner : UInt8) : Option UInt8 :=
  match filter.toNat with
  | 0 => some 0
  | 1 => some left
  | 2 => some above
  | 3 => some (UInt8.ofNat ((left.toNat + above.toNat) / 2))
  | 4 => some (nearest left above corner)
  | _ => none

/- Restores a filtered row, given the row above it. -/
def restoreRow?
    (filter : UInt8)
    (step : Nat)
    (above : Bytes)
    (raw : Bytes) : Option Bytes :=
  raw.foldlM (fun row byte => do
    let i := row.size
    let left := if i < step then 0 else row.getD (i - step) 0
    let corner := if i < step then 0 else above.getD (i - step) 0
    let predicted ← predict? filter left (above.getD i 0) corner
    pure (row.push (byte + predicted))) #[]

/- Restores the rows of a grid from an offset on. -/
def restoreRows?
    (step rowBytes : Nat)
    (data : Bytes) :
    Nat → Nat → Bytes → Option (List Bytes)
| 0, _, _ => some []
| rows + 1, offset, above => do
    let filter ← data[offset]?
    let raw ← data.slice? (offset + 1) rowBytes
    let row ← restoreRow? filter step above raw
    let rest ←
      restoreRows? step rowBytes data rows (offset + 1 + rowBytes) row
    pure (row :: rest)

------------------------------------------------------------
-- Pixels
------------------------------------------------------------

/- Sample of a row. -/
def sample
    (depth : Nat)
    (row : Bytes)
    (i : Nat) : Nat :=
  if depth == 16 then (row.word? (2 * i)).getD 0
  else
    let place := i * depth
    let byte := (row.getD (place / 8) 0).toNat
    byte >>> (8 - depth - place % 8) % Nat.pow 2 depth

/- Brings a sample to eight bits. -/
def widen
    (depth n : Nat) : UInt8 :=
  if depth == 16 then UInt8.ofNat ((n + 128) / 257)
  else UInt8.ofNat (n * (255 / (Nat.pow 2 depth - 1)))

/-
  Entry of a palette; colors that it lacks are black. What is
  said of their opacity counts unless it is said of too many.
-/
def paletteColor
    (palette transparency : Bytes)
    (index : Nat) : Pixel :=
  let isUsed := 3 * transparency.size ≤ palette.size
  match palette.slice? (3 * index) 3 with
  | some entry =>
      ⟨entry.getD 0 0, entry.getD 1 0, entry.getD 2 0,
        if isUsed then transparency.getD index 255 else 255⟩
  | none => ⟨0, 0, 0, 255⟩

/-
  The samples are those that the transparency names, each by a
  word, of which narrow samples use the low byte.
-/
def isTransparent
    (depth : Nat)
    (transparency : Bytes)
    (samples : List Nat) : Bool :=
  if transparency.isEmpty then false
  else if depth == 16 then
    transparency.size == 2 * samples.length
      && samples.zipIdx.all fun (n, i) =>
        transparency.word? (2 * i) == some n
  else
    samples.zipIdx.all fun (n, i) =>
      (transparency.getD (2 * i + 1) 0).toNat == n

/- The pixel of a row. -/
def Header.pixel
    (h : Header)
    (palette transparency : Bytes)
    (row : Bytes)
    (x : Nat) : Pixel :=
  let count := h.model.samples
  let samples :=
    (List.range count).map fun i => sample h.depth row (count * x + i)
  let alpha :=
    if isTransparent h.depth transparency samples then 0 else 255
  let levels := samples.map (widen h.depth)
  match h.model, samples, levels with
  | .indexed, index :: _, _ => paletteColor palette transparency index
  | .gray, _, [g] => .gray g alpha
  | .grayAlpha, _, [g, a] => .gray g a
  | .rgb, _, [r, g, b] => ⟨r, g, b, alpha⟩
  | .rgbAlpha, _, [r, g, b, a] => ⟨r, g, b, a⟩
  | _, _, _ => ⟨0, 0, 0, 0⟩

------------------------------------------------------------
-- Grids
------------------------------------------------------------

/- The pixels of an image that are stored together. -/
structure Grid where
  x : Nat
  y : Nat
  stepX : Nat
  stepY : Nat
deriving DecidableEq, Repr

/- The grids of an image in the order they are stored. -/
def Header.grids
    (h : Header) : List Grid :=
  if h.interlaced then
    [⟨0, 0, 8, 8⟩, ⟨4, 0, 8, 8⟩, ⟨0, 4, 4, 8⟩, ⟨2, 0, 4, 4⟩,
      ⟨0, 2, 2, 4⟩, ⟨1, 0, 2, 2⟩, ⟨0, 1, 1, 2⟩]
  else [⟨0, 0, 1, 1⟩]

/- How many places a grid has along an axis. -/
def placesAlong
    (size first step : Nat) : Nat :=
  (size - first + step - 1) / step

/- Puts the pixels of the rows of a grid into an image. -/
def Grid.place
    (g : Grid)
    (width columns : Nat)
    (pixelOf : Bytes → Nat → Pixel)
    (rows : List Bytes)
    (image : Array Pixel) : Array Pixel :=
  rows.zipIdx.foldl (fun image (row, j) =>
    (List.range columns).foldl (fun image i =>
      let place := (g.y + j * g.stepY) * width + g.x + i * g.stepX
      image.setIfInBounds place (pixelOf row i)) image) image

/- Columns and rows of a grid; both are zero if one is. -/
def Header.extent
    (h : Header)
    (g : Grid) : Nat × Nat :=
  let columns := placesAlong h.width g.x g.stepX
  let rows := placesAlong h.height g.y g.stepY
  if columns == 0 || rows == 0 then (0, 0) else (columns, rows)

/- Bytes of a grid before they are compressed. -/
def Header.gridBytes
    (h : Header)
    (g : Grid) : Nat :=
  let (columns, rows) := h.extent g
  rows * (1 + h.rowBytes columns)

/- Bytes of an image before they are compressed. -/
def Header.bytes
    (h : Header) : Nat :=
  (h.grids.map h.gridBytes).foldr (· + ·) 0

/- Fills an image grid by grid from expanded data. -/
def Header.fill?
    (h : Header)
    (pixelOf : Bytes → Nat → Pixel)
    (data : Bytes) :
    List Grid → Nat → Array Pixel → Option (Array Pixel)
| [], _, image => some image
| g :: rest, offset, image => do
    let (columns, rows) := h.extent g
    let found ←
      restoreRows? h.step (h.rowBytes columns) data rows offset #[]
    h.fill? pixelOf data rest (offset + h.gridBytes g)
      (g.place h.width columns pixelOf found image)

------------------------------------------------------------
-- Images
------------------------------------------------------------

/- What the chunks before the data say of an image. -/
structure Setup where
  header : Header
  palette? : Option Bytes
  transparency? : Option Bytes

namespace Setup

/- A palette may have this content. -/
def isPalette
    (content : Bytes) : Bool :=
  0 < content.size && content.size ≤ 768 && content.size % 3 == 0

/- The transparency of an image may have this content. -/
def isTransparency
    (s : Setup)
    (content : Bytes) : Bool :=
  match s.header.model with
  | .gray => 2 ≤ content.size
  | .rgb => 6 ≤ content.size
  | .indexed => s.palette?.isSome
  | _ => false

/-
  Takes a chunk into account. The header and the palette come
  only once; the first sensible transparency counts.
-/
def add?
    (s : Setup)
    (c : Chunk) : Option Setup :=
  if c.name == namePalette then
    if s.palette?.isNone && isPalette c.content then
      some { s with palette? := some c.content }
    else none
  else if c.name == nameTransparency then
    if s.transparency?.isNone && s.isTransparency c.content then
      some { s with transparency? := some c.content }
    else some s
  else if isOptional c.name then some s
  else none

/- Reads what the chunks before the data say. -/
def read?
    (chunks : List Chunk) : Option Setup :=
  match chunks with
  | first :: rest => do
      let header ← readHeader? first.content
      let s ← rest.foldlM add? ⟨header, none, none⟩
      if first.name != nameHeader then none
      else if header.model == .indexed && s.palette?.isNone then none
      else pure s
  | [] => none

/- The pixel of a row. -/
def pixel
    (s : Setup) : Bytes → Nat → Pixel :=
  s.header.pixel (s.palette?.getD #[]) (s.transparency?.getD #[])

/- The image that compressed data holds. -/
def image?
    (s : Setup)
    (stored : Bytes) : Option Raster := do
  let h := s.header
  let data ← Inflate.firstBytes? h.bytes stored
  let blank := Array.replicate (h.width * h.height) ⟨0, 0, 0, 0⟩
  let pixels ← h.fill? s.pixel data h.grids 0 blank
  pure ⟨h.width, h.height, pixels.toList⟩

end Setup

/- The bytes of all chunks of data. -/
def storedData
    (chunks : List Chunk) : Bytes :=
  chunks.foldl (fun all c => all ++ c.content) #[]

/- Decodes an image. -/
def decode?
    (file : Bytes) : Option Raster := do
  let lead ← file.slice? 0 signature.size
  if lead != signature then none
  else
    let chunks ← chunks? file file.size false signature.size
    let isBefore := fun (c : Chunk) => c.name != nameData
    let setup ← Setup.read? (chunks.takeWhile isBefore)
    setup.image? (storedData (chunks.dropWhile isBefore))

end FixedPage.Png
