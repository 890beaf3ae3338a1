import FixedPage.Profile.Stage

/-
  This file reads the tables of color profiles that take four
  inks to three components. There are two kinds of simple
  tables, which hold bytes or words, and one kind whose stages
  are found by their offsets.

  Main declarations:
    * `Table`
    * `Table.read?`
-/

namespace FixedPage

/-
  The stages of a table. The components of simple tables of
  words are scaled in an older way.
-/
structure Table where
  stages : List Stage
  isOlderScale : Bool

namespace Table

/- Number of inks. -/
def inks : Nat := 4

/- Number of components of a color. -/
def components : Nat := 3

/- Names of the kinds of tables, read as numbers. -/
def nameBytes : Nat := 0x6D667431
def nameWords : Nat := 0x6D667432
def nameStages : Nat := 0x6D414220

/- The table is one of four inks and three components. -/
def hasChannels
    (file : Bytes)
    (offset : Nat) : Bool :=
  file[offset + 8]? == some (UInt8.ofNat inks)
    && file[offset + 9]? == some (UInt8.ofNat components)

------------------------------------------------------------
-- Words
------------------------------------------------------------

/- Words that are stored in one or two bytes each. -/
def wordsOf?
    (file : Bytes)
    (width offset count : Nat) : Option (Array Nat) :=
  if width == 1 then
    (file.slice? offset count).map fun found => found.map UnitWord.ofByte
  else file.words? offset count

/- Number of words of a grid, unless an axis is too short. -/
def gridWords?
    (sizes : List Nat) : Option Nat :=
  if sizes.any (· < 2) then none
  else some (components * sizes.foldl (· * ·) 1)

/- Reads a grid; gives it and where it ends. -/
def readGrid?
    (file : Bytes)
    (width offset : Nat)
    (sizes : List Nat) : Option (Stage × Nat) := do
  let count ← gridWords? sizes
  let words ← wordsOf? file width offset count
  pure (.grid ⟨sizes, words⟩, offset + width * count)

------------------------------------------------------------
-- Simple tables
------------------------------------------------------------

/-
  Reads sampled curves of the same length; gives the stage and
  where it ends. There is none if the length is zero.
-/
def readCurves?
    (file : Bytes)
    (width offset samples count : Nat) :
    Option (List Stage × Nat) := do
  if samples == 0 then pure ([], offset)
  else if samples == 1 || Curve.maxSamples < samples then none
  else
    let curves ←
      (List.range count).mapM fun i =>
        wordsOf? file width (offset + width * samples * i) samples
    pure ([.curves (curves.map .sampled)],
      offset + width * samples * count)

/- Reads a simple table, given the lengths of its curves. -/
def readSimple?
    (file : Bytes)
    (width offset start inkSamples colorSamples : Nat) :
    Option Table := do
  let size ← file[offset + 10]?
  let (inkCurves, gridAt) ← readCurves? file width start inkSamples inks
  let (grid, colorAt) ←
    readGrid? file width gridAt (List.replicate inks size.toNat)
  let (colorCurves, _) ←
    readCurves? file width colorAt colorSamples components
  pure ⟨inkCurves ++ [grid] ++ colorCurves, width == 2⟩

------------------------------------------------------------
-- Tables of stages
------------------------------------------------------------

/- Reads three rows of a matrix and then an offset. -/
def readLinear?
    (file : Bytes)
    (offset : Nat) : Option Stage := do
  let first ← Curve.fractions? file offset 3
  let second ← Curve.fractions? file (offset + 12) 3
  let third ← Curve.fractions? file (offset + 24) 3
  let shift ← Curve.fractions? file (offset + 36) 3
  pure (.linear [first, second, third] shift)

/-
  Reads a grid that starts with sixteen sizes, of which only
  those of the inks are used, and the width of its words.
-/
def readSizedGrid?
    (file : Bytes)
    (offset : Nat) : Option Stage := do
  let sizes ← file.slice? offset 16
  let width ← file[offset + 16]?
  if sizes.contains 1 || (width != 1 && width != 2) then none
  else
    let used := (sizes.toList.take inks).map UInt8.toNat
    let (grid, _) ← readGrid? file width.toNat (offset + 20) used
    pure grid

/- Reads a stage, unless its offset is zero. -/
def readAt?
    (base offset : Nat)
    (read? : Nat → Option Stage) : Option (List Stage) :=
  if offset == 0 then some []
  else (read? (base + offset)).map fun stage => [stage]

/- Reads a table of stages. -/
def readStages?
    (file : Bytes)
    (base : Nat) : Option Table := do
  let lastCurves ← file.long? (base + 12)
  let linear ← file.long? (base + 16)
  let middleCurves ← file.long? (base + 20)
  let grid ← file.long? (base + 24)
  let firstCurves ← file.long? (base + 28)
  let readCurves := fun (count offset : Nat) =>
    (Curve.readSeveral? file count offset).map Stage.curves
  if grid == 0 then none
  else
    let stage₁ ← readAt? base firstCurves (readCurves inks)
    let stage₂ ← readAt? base grid (readSizedGrid? file)
    let stage₃ ← readAt? base middleCurves (readCurves components)
    let stage₄ ← readAt? base linear (readLinear? file)
    let stage₅ ← readAt? base lastCurves (readCurves components)
    pure ⟨stage₁ ++ stage₂ ++ stage₃ ++ stage₄ ++ stage₅, false⟩

------------------------------------------------------------
-- All tables
------------------------------------------------------------

/- Reads the table at an offset of a profile. -/
def read?
    (file : Bytes)
    (offset : Nat) : Option Table := do
  let name ← file.long? offset
  if !hasChannels file offset then none
  else if name == nameBytes then
    readSimple? file 1 offset (offset + 48) 256 256
  else if name == nameWords then
    let inkSamples ← file.word? (offset + 48)
    let colorSamples ← file.word? (offset + 50)
    readSimple? file 2 offset (offset + 52) inkSamples colorSamples
  else if name == nameStages then readStages? file offset
  else none

end Table

end FixedPage
