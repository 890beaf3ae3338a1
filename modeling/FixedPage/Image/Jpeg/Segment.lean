import FixedPage.Bytes
import FixedPage.Image.PrefixCode

/-
  This file reads the segments of images in the JPEG format that
  come before the coded data: tables, the frame that lists the
  components of the image, and the header of a scan.

  Main declarations:
    * `Jpeg.Frame`
    * `Jpeg.Scan`
    * `Jpeg.Marker`
    * `Jpeg.Setup`
    * `Jpeg.Setup.readScan?`
-/

namespace FixedPage.Jpeg

------------------------------------------------------------
-- Frames and scans
------------------------------------------------------------

/-
  A component of an image: its name, how many of its blocks lie
  side by side and below each other in a unit, and the number of
  its table of weights.
-/
structure Component where
  name : Nat
  across : Nat
  down : Nat
  weights : Nat
deriving DecidableEq, Repr

/- The size and the components of an image. -/
structure Frame where
  width : Nat
  height : Nat
  isProgressive : Bool
  components : List Component
deriving DecidableEq, Repr

/- A component in a scan and the numbers of its two codes. -/
structure Part where
  component : Nat
  firstCode : Nat
  furtherCode : Nat
deriving DecidableEq, Repr

/-
  What a scan gives: of which components, which coefficients,
  and which bits of them. `high` is zero for the first bits.
-/
structure Scan where
  parts : List Part
  first : Nat
  last : Nat
  high : Nat
  low : Nat
deriving DecidableEq, Repr

/-
  What a segment is. Images that have refused ones cannot be
  read; others do not matter.
-/
inductive Marker where
  | frame
      (isProgressive : Bool)
  | codes
  | weights
  | interval
  | colors
  | scan
  | refused
  | other
deriving DecidableEq, Repr

/- The marker of a number. -/
def Marker.ofNumber
    (number : Nat) : Marker :=
  let refused :=
    [0xC3, 0xC5, 0xC6, 0xC7, 0xC9, 0xCA, 0xCB, 0xCC, 0xCD, 0xCE, 0xCF,
      0xD9, 0xDC]
  match number with
  | 0xC0 => .frame false
  | 0xC1 => .frame false
  | 0xC2 => .frame true
  | 0xC4 => .codes
  | 0xDA => .scan
  | 0xDB => .weights
  | 0xDD => .interval
  | 0xEE => .colors
  | _ => if refused.contains number then .refused else .other

/- What the segments so far say. Later tables come first. -/
structure Setup where
  weights : List (Nat × Array Nat)
  firstCodes : List (Nat × PrefixCode)
  furtherCodes : List (Nat × PrefixCode)
  interval : Nat
  colors? : Option Nat
  frame? : Option Frame

/- Most components of an image and tables of a kind. -/
def maxTables : Nat :=
  4

/- Number of coefficients of a block. -/
def blockSize : Nat :=
  64

namespace Setup

/- What is known before the first segment. -/
def initial : Setup :=
  ⟨[], [], [], 0, none, none⟩

------------------------------------------------------------
-- Tables
------------------------------------------------------------

/- Reads tables of weights, which are bytes or words. -/
def readWeights? :
    Nat → Nat → Bytes → Setup → Option Setup
| 0, _, _, _ => none
| fuel + 1, offset, content, s =>
    if content.size ≤ offset then some s
    else do
      let head ← content[offset]?
      let width := head.toNat / 16 + 1
      let number := head.toNat % 16
      if 2 < width || maxTables ≤ number then none
      else
        let table ←
          (List.range blockSize).mapM fun i =>
            Bytes.number? .largestFirst width content
              (offset + 1 + width * i)
        readWeights? fuel (offset + 1 + width * blockSize) content
          { s with weights := (number, table.toArray) :: s.weights }

/- Words of each length leave one for longer words. -/
def leavesRoom
    (counts : List Nat) : Bool :=
  let nexts :=
    counts.foldl
      (fun found n => found ++ [2 * found.getLastD 0 + n]) []
  nexts.zipIdx.all fun (next, i) => next < Nat.pow 2 (i + 1)

/- Reads the counts and the symbols of a code. -/
def readCode?
    (content : Bytes)
    (offset : Nat) : Option (PrefixCode × Nat) := do
  let counts ← content.slice? offset 16
  let counts := counts.toList.map UInt8.toNat
  let total := counts.foldr (· + ·) 0
  let symbols ← content.slice? (offset + 16) total
  if leavesRoom counts && total ≤ 256 then
    pure (⟨counts, symbols.map UInt8.toNat⟩, offset + 16 + total)
  else none

/- Reads codes for first or for further coefficients. -/
def readCodes? :
    Nat → Nat → Bytes → Setup → Option Setup
| 0, _, _, _ => none
| fuel + 1, offset, content, s =>
    if content.size ≤ offset then some s
    else do
      let head ← content[offset]?
      let number := head.toNat % 16
      let (code, next) ← readCode? content (offset + 1)
      if maxTables ≤ number then none
      else
        match head.toNat / 16 with
        | 0 =>
            if code.symbols.any (15 < ·) then none
            else
              readCodes? fuel next content
                { s with firstCodes := (number, code) :: s.firstCodes }
        | 1 =>
            readCodes? fuel next content
              { s with
                furtherCodes := (number, code) :: s.furtherCodes }
        | _ => none

/- Reads how many units lie between two restarts. -/
def readInterval?
    (content : Bytes)
    (s : Setup) : Option Setup := do
  let interval ← content.word? 0
  if content.size != 2 then none else pure { s with interval }

/- Reads the number of a color model, if there is one. -/
def readColors?
    (content : Bytes)
    (s : Setup) : Option Setup :=
  if content.slice? 0 5 != some #[0x41, 0x64, 0x6F, 0x62, 0x65] then
    some s
  else do
    let number ← content[11]?
    if 2 < number.toNat then none
    else pure { s with colors? := some number.toNat }

------------------------------------------------------------
-- Frames and scans
------------------------------------------------------------

/- A number of blocks is a power of two. -/
def isFactor
    (n : Nat) : Bool :=
  [1, 2, 4, 8].contains n

/- Reads a component. -/
def readComponent?
    (content : Bytes)
    (offset : Nat) : Option Component := do
  let name ← content[offset]?
  let factors ← content[offset + 1]?
  let weights ← content[offset + 2]?
  let across := factors.toNat / 16
  let down := factors.toNat % 16
  if isFactor across && isFactor down && weights.toNat < maxTables then
    pure ⟨name.toNat, across, down, weights.toNat⟩
  else none

/- Reads the frame, of which there is only one. -/
def readFrame?
    (isProgressive : Bool)
    (content : Bytes)
    (s : Setup) : Option Setup := do
  let depth ← content[0]?
  let height ← content.word? 1
  let width ← content.word? 3
  let count ← content[5]?
  let count := count.toNat
  if s.frame?.isSome || depth != 8 || width == 0 || height == 0
      || count == 0 || maxTables < count || content.size != 6 + 3 * count
  then none
  else
    let components ←
      (List.range count).mapM fun i => readComponent? content (6 + 3 * i)
    pure { s with
      frame? := some ⟨width, height, isProgressive, components⟩ }

/- Reads a part of a scan. -/
def readPart?
    (frame : Frame)
    (content : Bytes)
    (offset : Nat) : Option Part := do
  let name ← content[offset]?
  let codes ← content[offset + 1]?
  let component ←
    frame.components.findIdx? fun c => c.name == name.toNat
  pure ⟨component, codes.toNat / 16, codes.toNat % 16⟩

/- Reads the header of a scan. Its components differ. -/
def readScanHeader?
    (content : Bytes)
    (s : Setup) : Option Scan := do
  let frame ← s.frame?
  let count ← content[0]?
  let count := count.toNat
  let parts ←
    (List.range count).mapM fun i => readPart? frame content (1 + 2 * i)
  let first ← content[1 + 2 * count]?
  let last ← content[2 + 2 * count]?
  let bits ← content[3 + 2 * count]?
  let high := bits.toNat / 16
  let low := bits.toNat % 16
  let components := parts.map Part.component
  if count == 0 || maxTables < count || content.size != 4 + 2 * count
      || components.eraseDups.length != count
      || blockSize ≤ first.toNat || blockSize ≤ last.toNat
      || 13 < high || 13 < low then none
  else pure ⟨parts, first.toNat, last.toNat, high, low⟩

------------------------------------------------------------
-- Segments
------------------------------------------------------------

/- Takes a segment into account. -/
def add?
    (s : Setup)
    (marker : Marker)
    (content : Bytes) : Option Setup :=
  let fuel := content.size + 1
  match marker with
  | .frame isProgressive => s.readFrame? isProgressive content
  | .codes => s.readCodes? fuel 0 content
  | .weights => s.readWeights? fuel 0 content
  | .interval => s.readInterval? content
  | .colors => s.readColors? content
  | .other => some s
  | .scan => none
  | .refused => none

/- The next marker and the offset behind it. -/
def nextMarker?
    (file : Bytes) :
    Nat → Nat → Option (Marker × Nat)
| 0, _ => none
| fuel + 1, offset => do
    let lead ← file[offset]?
    let marker ← file[offset + 1]?
    if lead == 0xFF && marker != 0xFF && marker != 0 then
      pure (.ofNumber marker.toNat, offset + 2)
    else nextMarker? file fuel (offset + 1)

/-
  Reads segments up to the header of a scan; gives what they say
  and where the coded data starts.
-/
def readScan?
    (file : Bytes) :
    Nat → Nat → Setup → Option (Setup × Scan × Nat)
| 0, _, _ => none
| fuel + 1, offset, s => do
    let (marker, start) ← nextMarker? file file.size offset
    let size ← file.word? start
    if size < 2 then none
    else
      let content ← file.slice? (start + 2) (size - 2)
      if marker == .scan then
        let scan ← s.readScanHeader? content
        pure (s, scan, start + size)
      else
        let s ← s.add? marker content
        readScan? file fuel (start + size) s

end Setup

end FixedPage.Jpeg
