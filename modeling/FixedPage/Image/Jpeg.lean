import FixedPage.Image.Jpeg.Blocks
import FixedPage.Image.Jpeg.Color
import FixedPage.Image.Jpeg.Plane

/-
  This file decodes images in the JPEG format.

  Main declarations:
    * `Jpeg.readBlocks`
    * `Jpeg.Blocks.plane`
    * `Jpeg.decode?`
-/

namespace FixedPage.Jpeg

------------------------------------------------------------
-- Scans
------------------------------------------------------------

/- The codes that a scan needs are there. -/
def Scan.hasCodes
    (scan : Scan)
    (s : Setup)
    (pass : Pass) : Bool :=
  scan.parts.all fun part =>
    let first := (s.firstCodes.lookup part.firstCode).isSome
    let further := (s.furtherCodes.lookup part.furtherCode).isSome
    match pass with
    | .whole => first && further
    | .first => first
    | .firstBit => true
    | .further => further
    | .furtherBit => further

/-
  Reads the scans that follow a scan header. A file that breaks
  off ends the image, and so does a scan that is not understood;
  but the first scan must be in order.
-/
def readBlocks
    (file : Bytes)
    (f : Frame) :
    Nat → Setup → Scan → Nat → Blocks → Option Blocks
| 0, _, _, _, b => some b
| fuel + 1, s, scan, start, b => do
    let pass ← scan.pass? f.isProgressive
    if !scan.hasCodes s pass then none
    else
      let (pieces, after) := splitData file start
      let b := b.addScan s f scan pass pieces
      let isDone := b.brokenRow?.isSome || (pass == .whole && b.isStarted)
      match isDone, s.readScan? file file.size after with
      | false, some (s, next, start) =>
          readBlocks file f fuel s next start b <|> some b
      | _, _ => some b

------------------------------------------------------------
-- Planes
------------------------------------------------------------

/-
  The samples of a block. Where coding broke off, the samples of
  the units above are left, or there is darkness; below it all
  samples are in the middle.
-/
def Blocks.samples
    (b : Blocks)
    (weights : Array Nat)
    (component across down x y : Nat) : Array Nat :=
  let blockAt := fun (y : Nat) => b.block component (y * across + x)
  let found := blockAt y
  if !found.isEmpty then samplesOf weights found
  else if b.brokenRow? != some (y / down) then
    Array.replicate blockSize 128
  else if y < down then Array.replicate blockSize 0
  else samplesOf weights (blockAt (y - down))

/- The plane of a component in the size of the image. -/
def Blocks.plane
    (b : Blocks)
    (s : Setup)
    (f : Frame)
    (component : Nat)
    (c : Component) : Plane :=
  let across := f.unitsAcross * c.across
  let weights := (s.weights.lookup c.weights).getD #[]
  let rows :=
    (List.range (f.unitsDown * c.down)).flatMap fun y =>
      let blocks :=
        (List.range across).map fun x =>
          b.samples weights component across c.down x y
      (List.range 8).map fun j =>
        (blocks.map fun block => block.extract (8 * j) (8 * j + 8)).foldl
          (· ++ ·) #[]
  Plane.enlarge rows.toArray (f.maxAcross / c.across)
    (f.maxDown / c.down)

------------------------------------------------------------
-- Images
------------------------------------------------------------

/- The bytes that every file starts with. -/
def signature : Bytes :=
  #[0xFF, 0xD8, 0xFF]

/- Most bytes of an image. -/
def maxBytes : Nat :=
  Nat.pow 2 29

/- Decodes an image. -/
def decode?
    (file : Bytes) : Option Raster := do
  let lead ← file.slice? 0 signature.size
  let (s, scan, start) ← Setup.initial.readScan? file file.size 2
  let f ← s.frame?
  let model ←
    ColorModel.ofNumbers? s.colors? (f.components.map Component.name)
  let hasWeights :=
    f.components.all fun c => (s.weights.lookup c.weights).isSome
  if lead != signature || !hasWeights
      || maxBytes < f.width * f.height * f.components.length then none
  else
    let b ← readBlocks file f file.size s scan start (.initial f)
    let planes :=
      f.components.zipIdx.map fun (c, i) => b.plane s f i c
    let pixelAt := fun (y x : Nat) =>
      model.pixel (planes.map fun plane => plane.sample x y)
    let pixels :=
      (List.range f.height).flatMap fun y =>
        (List.range f.width).map (pixelAt y)
    pure ⟨f.width, f.height, pixels⟩

end FixedPage.Jpeg
