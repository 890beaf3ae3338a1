import FixedPage.Bytes

/-
  This file opens font files: a directory of tables, each with a
  name of four letters. A file may hold several fonts, of which
  the first one counts. Where the items of a table are in order,
  one of them is found by halving the part that is still searched.

  Main declarations:
    * `FontFault`
    * `FontTables`
    * `FontTables.ofBytes`
    * `FontTables.table?`
    * `Ordered.lastNotBehind?`
-/

namespace FixedPage

/- Why bytes are not a font. -/
inductive FontFault where
  | unknownMagic
  | malformed
  | faceOutOfRange
  | noHeader
  | noHorizontalHeader
  | noProfile
deriving DecidableEq, Repr

/- Wording of a fault. -/
def FontFault.message : FontFault → String
| .unknownMagic => "unknown magic"
| .malformed => "malformed font"
| .faceOutOfRange => "face index is out of bounds"
| .noHeader => "the head table is missing or malformed"
| .noHorizontalHeader => "the hhea table is missing or malformed"
| .noProfile => "the maxp table is missing or malformed"

/- Where a table of a font lies. -/
structure TableRecord where
  name : List UInt8
  offset : Nat
  size : Nat
deriving DecidableEq, Repr

/- A font file and the directory of its tables. -/
structure FontTables where
  file : Bytes
  records : List TableRecord
deriving Repr

namespace FontTables

------------------------------------------------------------
-- Directory
------------------------------------------------------------

/- What the first four bytes of a font say it is. -/
inductive Magic where
  | font
  | collection
deriving DecidableEq, Repr

/- Reads the first bytes of a font. -/
def magic
    (file : Bytes)
    (offset : Nat) : Except FontFault Magic :=
  match file.long? offset with
  | some 0x00010000 => .ok .font
  | some 0x74727565 => .ok .font
  | some 0x4F54544F => .ok .font
  | some 0x74746366 => .ok .collection
  | _ => .error .unknownMagic

/- Gives a fault for a value that cannot be read. -/
def need
    {β : Type}
    (value? : Option β)
    (fault : FontFault) : Except FontFault β :=
  match value? with
  | some value => .ok value
  | none => .error fault

/-
  Where the first font of a collection starts. It lies behind
  the list of fonts.
-/
def firstOf
    (file : Bytes) : Except FontFault Nat := do
  let count ← need (file.long? 8) .malformed
  let _ ← need (file.slice? 12 (4 * count)) .malformed
  if count == 0 then .error .faceOutOfRange
  else
    let offset ← need (file.long? 12) .malformed
    if offset < 12 + 4 * count || file.size < offset then
      .error .malformed
    else
      match ← magic file offset with
      | .font => .ok offset
      | .collection => .error .unknownMagic

/- Where the font of a file starts. -/
def start
    (file : Bytes) : Except FontFault Nat := do
  match ← magic file 0 with
  | .font => .ok 0
  | .collection => firstOf file

/- Reads an entry of the directory. -/
def record?
    (entry : Bytes) : Option TableRecord := do
  let name ← entry.slice? 0 4
  let offset ← entry.long? 8
  let size ← entry.long? 12
  pure ⟨name.toList, offset, size⟩

/- Reads the directory of the first font of a file. -/
def ofBytes
    (file : Bytes) : Except FontFault FontTables := do
  let offset ← start file
  let count ← need (file.word? (offset + 4)) .malformed
  let directory ←
    need (file.slice? (offset + 12) (16 * count)) .malformed
  let entries ← need (directory.entries? 0 16 count) .malformed
  pure ⟨file, entries.filterMap record?⟩

------------------------------------------------------------
-- Tables
------------------------------------------------------------

/- Bytes of a letter name. -/
def nameBytes
    (name : String) : List UInt8 :=
  name.toList.map fun c => UInt8.ofNat c.toNat

/- The last table of a name, if it lies inside the file. -/
def table?
    (t : FontTables)
    (name : String) : Option Bytes :=
  let wanted := nameBytes name
  ((t.records.filter (·.name == wanted)).getLast?).bind fun r =>
    t.file.slice? r.offset r.size

end FontTables

------------------------------------------------------------
-- Items In Order
------------------------------------------------------------

namespace Ordered

variable {β : Type}

/-
  Looks for the last item that is not behind a place, among the
  `size` items from `base` on.
-/
def searchFrom
    (isBehind : β → Bool)
    (items : Array β) :
    Nat → Nat → Nat → Option β
| 0, base, _ => items[base]?
| steps + 1, base, size =>
    if 1 < size then
      let half := size / 2
      match items[base + half]? with
      | none => none
      | some item =>
          let base := if isBehind item then base else base + half
          searchFrom isBehind items steps base (size - half)
    else items[base]?

/-
  The last item that is not behind a place, or the first one if
  all of them are.
-/
def lastNotBehind?
    (isBehind : β → Bool)
    (items : Array β) : Option β :=
  searchFrom isBehind items items.size 0 items.size

end Ordered

end FixedPage
