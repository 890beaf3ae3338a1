import FixedPage.Bytes
import FixedPage.Font.Tables
import FixedPage.Font.Variation.Store

/-
  This file reads how the metrics of a variable font differ from
  the stored ones: the advances of glyphs, and values of the
  whole font that have names of four letters.

  Main declarations:
    * `DesignAxes.count?`
    * `AdvanceVariation`
    * `AdvanceVariation.delta?`
    * `NamedVariation`
    * `NamedVariation.delta?`
-/

namespace FixedPage

------------------------------------------------------------
-- Axes
------------------------------------------------------------

namespace DesignAxes

/- Most axes that a font is varied along. -/
def maxAxes : Nat :=
  64

/- Bytes that the description of an axis takes. -/
def axisSize : Nat :=
  20

/- Reads the number of axes, of which there is at least one. -/
def count?
    (table : Bytes) : Option Nat := do
  let version ← table.long? 0
  let place ← table.word? 4
  let axes ← table.word? 8
  if version != 0x00010000 || axes == 0 then none
  else do
    let _ ← table.slice? place (axes * axisSize)
    pure (min axes maxAxes)

end DesignAxes

------------------------------------------------------------
-- Advances
------------------------------------------------------------

/-
  Differences of advances, and a table that finds those of a
  glyph if they are not in order.
-/
structure AdvanceVariation where
  store : VariationStore
  lookup? : Option (List UInt8)

namespace AdvanceVariation

/- Reads the differences of advances. -/
def read?
    (axes : Nat)
    (table : Bytes) : Option AdvanceVariation := do
  let version ← table.long? 0
  let storeAt ← table.long? 4
  let lookupAt ← table.long? 8
  if version != 0x00010000 || table.size < storeAt then none
  else do
    let _ ← table.slice? 12 8
    let store ← VariationStore.read? axes (table.toList.drop storeAt)
    if lookupAt == 0 then pure ⟨store, none⟩
    else pure ⟨store, some (table.toList.drop lookupAt)⟩

/-
  Takes the two numbers of a glyph from a lookup table. Its last
  entry is for all glyphs from there on.
-/
def takeNumbers
    (glyph : Nat) : Scan (Nat × Nat) := do
  let format ← Scan.byte
  let entry ← Scan.byte
  let count ← if format == 0 then Scan.word else Scan.long
  if count == 0 then failure
  else do
    let size := entry / 16 % 4 + 1
    let lowBits := entry % 16 + 1
    Scan.skip (size * min glyph (count - 1))
    let n ← Scan.number size
    let table := n / Nat.pow 2 lowBits
    if table < Nat.pow 2 16 then pure (table, n % Nat.pow 2 lowBits)
    else failure

/- The difference of the advance of a glyph. -/
def delta?
    (v : AdvanceVariation)
    (glyph : Nat) : Option Float32 := do
  let (table, row) ←
    match v.lookup? with
    | none => some (0, glyph)
    | some lookup => Scan.find? (takeNumbers glyph) lookup 0
  v.store.delta? table row

end AdvanceVariation

------------------------------------------------------------
-- Values with names
------------------------------------------------------------

/- A value of a font and where its difference is. -/
structure NamedValue where
  name : Nat
  table : Nat
  row : Nat
deriving DecidableEq, Repr

/- Differences of values of a font, in the order of their names. -/
structure NamedVariation where
  store : VariationStore
  values : Array NamedValue

namespace NamedVariation

/- Takes where the difference of a value is. -/
def takeValue : Scan NamedValue := do
  let name ← Scan.long
  let table ← Scan.word
  let row ← Scan.word
  pure ⟨name, table, row⟩

/- Takes the values and the place of the differences. -/
def takeValues : Scan (Nat × List NamedValue) := do
  let version ← Scan.long
  Scan.skip 2
  let size ← Scan.word
  let count ← Scan.word
  let storeAt ← Scan.word
  if version != 0x00010000 || size != 8 || count == 0 || storeAt == 0 then
    failure
  else do
    let values ← Scan.several takeValue count
    pure (storeAt, values)

/- Reads the differences of values. -/
def read?
    (axes : Nat)
    (table : Bytes) : Option NamedVariation := do
  let ((storeAt, values), _) ← takeValues.run table.toList
  if table.size < storeAt then none
  else do
    let store ← VariationStore.read? axes (table.toList.drop storeAt)
    pure ⟨store, values.toArray⟩

/- The difference of a value, given its name. -/
def delta?
    (v : NamedVariation)
    (name : Nat) : Option Float32 := do
  let value ← Ordered.lastNotBehind? (fun x => name < x.name) v.values
  if value.name == name then v.store.delta? value.table value.row
  else none

end NamedVariation

end FixedPage
