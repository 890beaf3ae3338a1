import FixedPage.Bytes
import FixedPage.Font.Tables

/-
  This file reads the table of a font that maps characters to
  glyphs. The table holds several maps for different platforms;
  the first map for Unicode that knows a character decides.

  Main declarations:
    * `CharacterMap`
    * `CharacterMap.glyph?`
    * `CharacterMap.read?`
    * `CharacterMap.readAll`
-/

namespace FixedPage

------------------------------------------------------------
-- Maps
------------------------------------------------------------

/- Characters from `first` to `last` and the glyph of the first. -/
structure CharacterGroup where
  first : Nat
  last : Nat
  glyph : Nat
deriving DecidableEq, Repr

/-
  A run of characters of two bytes. Glyphs are found by adding
  `delta`, or in an array whose distance in bytes from the place
  of the distance itself is `distance`.
-/
structure CharacterSegment where
  first : Nat
  last : Nat
  delta : Nat
  distance : Nat
  place : Nat
deriving DecidableEq, Repr

/-
  A run of low bytes. Glyphs lie in an array whose distance in
  bytes from the place of the distance itself is `distance`, and
  are found by adding `delta`.
-/
structure CharacterRange where
  first : Nat
  count : Nat
  delta : Int
  distance : Nat
deriving DecidableEq, Repr

/- A map from characters to glyphs, in one of its formats. -/
inductive CharacterMap where
  | bytes
      (glyphs : Array UInt8)
  | ranges
      (table : Bytes)
      (keys : Array Nat)
      (ranges : Array CharacterRange)
  | segments
      (table : Bytes)
      (segments : Array CharacterSegment)
  | run
      (first : Nat)
      (glyphs : Array Nat)
  | sequential
      (groups : Array CharacterGroup)
  | shared
      (groups : List CharacterGroup)
  | other

namespace CharacterMap

------------------------------------------------------------
-- Lookup
------------------------------------------------------------

/- A glyph number, which takes two bytes. -/
def glyphNumber?
    (n : Nat) : Option Nat :=
  if n < Nat.pow 2 16 then some n else none

/-
  The glyph of a character in a segment that holds it. Numbers
  of two bytes wrap around.
-/
def segmentGlyph?
    (table : Bytes)
    (s : CharacterSegment)
    (code : Nat) : Option Nat :=
  if s.distance == 0 then some ((code + s.delta) % Nat.pow 2 16)
  else if s.distance == 0xFFFF then none
  else
    let step := 2 * (code - s.first)
    if step < Nat.pow 2 16 then do
      let glyph ←
        table.word? ((s.place + step + s.distance) % Nat.pow 2 16)
      let shifted := (glyph + s.delta) % Nat.pow 2 16
      if glyph == 0 || Nat.pow 2 15 ≤ shifted then none
      else some shifted
    else none

/-
  Looks for a character between two segments by halving; the
  number of halvings is limited by `steps`.
-/
def searchSegments
    (table : Bytes)
    (segments : Array CharacterSegment)
    (code : Nat) :
    Nat → Nat → Nat → Option Nat
| 0, _, _ => none
| steps + 1, low, high =>
    if low < high then
      let middle := (low + high) / 2
      match segments[middle]? with
      | none => none
      | some s =>
          if s.last < code then
            searchSegments table segments code steps (middle + 1) high
          else if code < s.first then
            searchSegments table segments code steps low middle
          else segmentGlyph? table s code
    else none

/-
  The glyph of a character in a map of high and low bytes. The
  glyphs lie behind the place of the distance of its range.
-/
def rangeGlyph?
    (table : Bytes)
    (keys : Array Nat)
    (ranges : Array CharacterRange)
    (code : Nat) : Option Nat := do
  let i ← if code < 0xFF then some 0 else keys[code / 256]?.map (· / 8)
  let range ← ranges[i]?
  let low := code % 256
  let next := range.first + range.count
  if Nat.pow 2 16 ≤ next || low < range.first || next ≤ low then none
  else do
    let place := 518 + 8 * i + 6
    let glyph ←
      table.word? (place + range.distance + 2 * (low - range.first))
    let shifted := ((glyph : Int) + range.delta).tmod (Int.pow 2 16)
    if glyph == 0 || shifted < 0 then none else some shifted.toNat

/- Glyph of a character; none when the map does not know it. -/
def glyph?
    (map : CharacterMap)
    (code : Nat) : Option Nat :=
  match map with
  | .bytes glyphs =>
      match glyphs[code]? with
      | some glyph => if glyph == 0 then none else some glyph.toNat
      | none => none
  | .ranges table keys found =>
      if code < Nat.pow 2 16 then rangeGlyph? table keys found code
      else none
  | .segments table found =>
      if code < Nat.pow 2 16 then
        searchSegments table found code (found.size + 1) 0 found.size
      else none
  | .run first glyphs =>
      if first ≤ code then glyphs[code - first]? else none
  | .sequential groups => do
      let g ← Ordered.lastNotBehind? (fun g => code < g.first) groups
      if g.first ≤ code && code ≤ g.last then
        glyphNumber? (g.glyph + code - g.first)
      else none
  | .shared groups => do
      let g ← groups.find? fun g => g.first ≤ code && code ≤ g.last
      glyphNumber? g.glyph
  | .other => none

------------------------------------------------------------
-- Formats
------------------------------------------------------------

/- Reads a map of single bytes. -/
def readBytes?
    (table : Bytes) : Option CharacterMap :=
  (table.slice? 6 256).map .bytes

/- Reads a range of a map of high and low bytes. -/
def readRange?
    (entry : Bytes) : Option CharacterRange := do
  let first ← entry.word? 0
  let count ← entry.word? 2
  let delta ← entry.signed? 4
  let distance ← entry.word? 6
  pure ⟨first, count, delta, distance⟩

/- Reads a map of high and low bytes. -/
def readRanges?
    (table : Bytes) : Option CharacterMap := do
  let keys ← table.words? 6 256
  let last := keys.foldl (fun last key => max last (key / 8)) 0
  let _ ← table.slice? 518 (8 * (last + 1))
  let entries ← table.entries? 518 8 (last + 1)
  let ranges ← entries.mapM readRange?
  pure (.ranges table keys ranges.toArray)

/- Reads a map of segments. -/
def readSegments?
    (table : Bytes) : Option CharacterMap := do
  let count := (← table.word? 6) / 2
  if count == 0 then none
  else
    let lasts ← table.words? 14 count
    let firsts ← table.words? (16 + 2 * count) count
    let deltas ← table.words? (16 + 4 * count) count
    let distances ← table.words? (16 + 6 * count) count
    let segments := (Array.range count).map fun i =>
      { first := firsts.getD i 0
        last := lasts.getD i 0
        delta := deltas.getD i 0
        distance := distances.getD i 0
        place := 16 + 6 * count + 2 * i : CharacterSegment }
    pure (.segments table segments)

/-
  Reads a map of one run with short numbers, which does not reach
  beyond characters of two bytes.
-/
def readShortRun?
    (table : Bytes) : Option CharacterMap := do
  let first ← table.word? 6
  let count ← table.word? 8
  let glyphs ← table.words? 10 count
  pure (.run first (glyphs.extract 0 (Nat.pow 2 16 - first)))

/- Reads a map of one run with long numbers. -/
def readLongRun?
    (table : Bytes) : Option CharacterMap := do
  let first ← table.long? 12
  let count ← table.long? 16
  let glyphs ← table.words? 20 count
  pure (.run first glyphs)

/- Reads a group of characters. -/
def readGroup?
    (entry : Bytes) : Option CharacterGroup := do
  let first ← entry.long? 0
  let last ← entry.long? 4
  let glyph ← entry.long? 8
  pure ⟨first, last, glyph⟩

/- Reads the groups of a map. -/
def readGroups?
    (table : Bytes) : Option (List CharacterGroup) := do
  let count ← table.long? 12
  let _ ← table.slice? 16 (12 * count)
  let entries ← table.entries? 16 12 count
  entries.mapM readGroup?

/-
  Reads a map of characters that are followed by a selector of
  their form. It has no glyphs for single characters.
-/
def readSelectors?
    (table : Bytes) : Option CharacterMap := do
  let count ← table.long? 6
  let _ ← table.slice? 10 (11 * count)
  pure .other

/- Reads a map by its format. -/
def read?
    (table : Bytes) : Option (Nat × CharacterMap) := do
  let format ← table.word? 0
  let map ←
    match format with
    | 0 => readBytes? table
    | 2 => readRanges? table
    | 4 => readSegments? table
    | 6 => readShortRun? table
    | 8 => some .other
    | 10 => readLongRun? table
    | 12 => (readGroups? table).map fun groups =>
        .sequential groups.toArray
    | 13 => (readGroups? table).map .shared
    | 14 => readSelectors? table
    | _ => none
  pure (format, map)

------------------------------------------------------------
-- Tables
------------------------------------------------------------

/- A map is for Unicode, given its platform and encoding. -/
def isUnicode
    (platform encoding format : Nat) : Bool :=
  platform == 0
    || platform == 3 && encoding == 1
    || platform == 3 && encoding == 10
      && (format == 12 || format == 13)

/- Reads an entry of the table of maps. -/
def readMap?
    (table entry : Bytes) : Option (Bool × CharacterMap) := do
  let platform ← entry.word? 0
  let encoding ← entry.word? 2
  let offset ← entry.long? 4
  if 4 < platform || table.size < offset then none
  else
    let (format, map) ← read? (table.extract offset table.size)
    pure (isUnicode platform encoding format, map)

/- Values up to the first one that is missing. -/
def untilMissing
    {β : Type} :
    List (Option β) → List β
| some x :: rest => x :: untilMissing rest
| _ => []

/-
  The maps for Unicode. A map that cannot be read hides those
  after it.
-/
def readAll
    (table : Bytes) : List CharacterMap :=
  let entries? := do
    let count ← table.word? 2
    table.entries? 4 8 count
  let maps :=
    untilMissing ((entries?.getD []).map (readMap? table))
  (maps.filter (·.1)).map (·.2)

end CharacterMap

end FixedPage
