import FixedPage.Scan

/-
  This file reads how the values of a variable font differ from
  the stored ones. Differences belong to regions of the space of
  designs. A font is used at the origin of that space, where a
  region counts in full or not at all.

  Main declarations:
    * `DesignSpan`
    * `VariationStore`
    * `VariationStore.read?`
    * `VariationStore.delta?`
-/

namespace FixedPage

------------------------------------------------------------
-- Regions
------------------------------------------------------------

/- What a region takes of an axis: from `first` to `last`. -/
structure DesignSpan where
  first : Int
  peak : Int
  last : Int
deriving DecidableEq, Repr

namespace DesignSpan

/-
  The span does not restrict the axis: it is out of order or
  lies on both sides of the origin.
-/
def isIgnored
    (s : DesignSpan) : Bool :=
  s.peak < s.first || s.last < s.peak || s.first < 0 && 0 < s.last

/- The span takes in the origin. -/
def holdsOrigin
    (s : DesignSpan) : Bool :=
  s.peak == 0 || s.isIgnored

/- Takes a span. -/
def takeNext : Scan DesignSpan := do
  let first ← Scan.signed 2
  let peak ← Scan.signed 2
  let last ← Scan.signed 2
  pure ⟨first, peak, last⟩

end DesignSpan

------------------------------------------------------------
-- Stores
------------------------------------------------------------

/-
  Differences by two numbers, and regions as spans by axis.
  `axes` is the number of axes of the font.
-/
structure VariationStore where
  axes : Nat
  bytes : List UInt8
  places : List Nat
  regionAxes : Nat
  spans : Array DesignSpan

namespace VariationStore

/- Takes the spans of all regions. -/
def takeRegions : Scan (Nat × Array DesignSpan) := do
  let axes ← Scan.word
  let regions ← Scan.word
  if regions * axes < Nat.pow 2 16 then do
    let spans ← Scan.several DesignSpan.takeNext (regions * axes)
    pure (axes, spans.toArray)
  else failure

/- Takes the places of regions and of differences. -/
def takePlaces : Scan (Nat × List Nat) := do
  let format ← Scan.word
  let regionsAt ← Scan.long
  let count ← Scan.word
  if format == 1 then do
    let places ← Scan.several Scan.long count
    pure (regionsAt, places)
  else failure

/- Reads a store. -/
def read?
    (axes : Nat)
    (bytes : List UInt8) : Option VariationStore := do
  let ((regionsAt, places), _) ← takePlaces.run bytes
  let (regionAxes, spans) ← Scan.find? takeRegions bytes regionsAt
  pure ⟨axes, bytes, places, regionAxes, spans⟩

/- A region takes in the origin on every axis of the font. -/
def holdsOrigin
    (s : VariationStore)
    (region : Nat) : Bool :=
  (List.range s.axes).all fun axis =>
    match s.spans[region * s.regionAxes + axis]? with
    | some span => span.holdsOrigin
    | none => false

/- How much a region counts. -/
def weight
    (s : VariationStore)
    (region : Nat) : Float32 :=
  if s.holdsOrigin region then 1 else 0

/- A table of differences before its rows. -/
structure Lead where
  rows : Nat
  wide : Nat
  longNumbers : Bool
  regions : List Nat
deriving DecidableEq, Repr

/- Takes what precedes the rows of a table. -/
def takeLead : Scan Lead := do
  let rows ← Scan.word
  let wide ← Scan.word
  let count ← Scan.word
  let regions ← Scan.several Scan.word count
  pure ⟨rows, wide % Nat.pow 2 15, wide.testBit 15, regions⟩

/- Regions that a table of differences refers to. -/
def regions?
    (s : VariationStore)
    (table : Nat) : Option (List Nat) := do
  let place ← s.places[table]?
  let lead ← Scan.find? takeLead s.bytes place
  pure lead.regions

/- Takes the differences of a row, the wide ones first. -/
def takeRow
    (s : VariationStore)
    (wideSize size : Nat) :
    Nat → List Nat → Scan Float32 → Scan Float32
| _, [], total => total
| wide, region :: rest, total =>
    let total := do
      let sum ← total
      let n ← Scan.signed (if wide == 0 then size else wideSize)
      pure (sum + Float32.ofInt n * s.weight region)
    s.takeRow wideSize size (wide - 1) rest total

/- Takes the sum of the differences of a row. -/
def takeDelta
    (s : VariationStore)
    (row : Nat) : Scan Float32 := do
  let lead ← takeLead
  let count := lead.regions.length
  if lead.rows ≤ row || count < lead.wide then failure
  else do
    let cells := (lead.wide + count) % Nat.pow 2 16
    let rowSize :=
      if lead.longNumbers then 2 * cells % Nat.pow 2 16 else cells
    Scan.skip (row * rowSize)
    let size := if lead.longNumbers then 2 else 1
    s.takeRow (2 * size) size lead.wide lead.regions (pure 0)

/- The difference with two numbers. -/
def delta?
    (s : VariationStore)
    (table row : Nat) : Option Float32 := do
  let place ← s.places[table]?
  Scan.find? (s.takeDelta row) s.bytes place

end VariationStore

end FixedPage
