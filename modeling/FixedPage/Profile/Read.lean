import FixedPage.Decimal.Machine
import FixedPage.Paint.Literal
import FixedPage.Profile.Connection
import FixedPage.Profile.Table

/-
  This file reads color profiles: a header that names the
  channels, and tagged tables of which one takes ink amounts to
  a color space that does not depend on devices.

  Main declarations:
    * `Profile.Fault`
    * `Profile.Tag`
    * `Profile.Header`
    * `Profile.convert`
    * `Profile.read`
-/

namespace FixedPage.Profile

------------------------------------------------------------
-- Faults
------------------------------------------------------------

/- Why a profile cannot be used. -/
inductive Fault where
  | empty
  | malformed
  | noTable
deriving DecidableEq, Repr

/- What is said when no reason is known. -/
def unknownReason : String :=
  "Could not create the object.\n"
    ++ "The reason is not known, but it's usually caused by wrong "
    ++ "input parameters."

/- Wording of a fault. -/
def Fault.message : Fault → String
| .empty =>
    "invalid ICC profile: Requested data is empty or does not exist."
| .malformed => "invalid ICC profile: " ++ unknownReason
| .noTable => "ICC transform: " ++ unknownReason

------------------------------------------------------------
-- Tags
------------------------------------------------------------

/- A named range of a profile. -/
structure Tag where
  name : Nat
  offset : Nat
  size : Nat
deriving DecidableEq, Repr

/- Where the header ends and the list of tags starts. -/
def headerSize : Nat :=
  128

/- Most tags that a profile may have. -/
def maxTags : Nat :=
  100

/- The tag is not empty and lies before an offset. -/
def Tag.isBefore
    (limit : Nat)
    (tag : Tag) : Bool :=
  tag.offset != 0 && tag.size != 0 && tag.offset + tag.size ≤ limit

/- The list of all tags. -/
def listedTags?
    (file : Bytes) : Option (List Tag) := do
  let count ← file.long? headerSize
  if maxTags < count then none
  else
    (List.range count).mapM fun i => do
      let start := headerSize + 4 + 12 * i
      let name ← file.long? start
      let offset ← file.long? (start + 4)
      let size ← file.long? (start + 8)
      pure ⟨name, offset, size⟩

/- Reads the tags that lie in the profile; names must differ. -/
def tags?
    (file : Bytes) : Option (List Tag) := do
  let size ← file.long? 0
  let listed ← listedTags? file
  let used := listed.filter (Tag.isBefore (min size file.size))
  let names := used.map Tag.name
  if names.eraseDups.length == names.length then pure used else none

------------------------------------------------------------
-- Headers
------------------------------------------------------------

/- Names in profiles, read as numbers. -/
def nameProfile : Nat := 0x61637370
def nameInks : Nat := 0x434D594B
def nameLinear : Nat := 0x58595A20
def nameLightness : Nat := 0x4C616220
def nameTable : Nat := 0x41324230
def nameOtherTable : Nat := 0x44324230

/- Names of the classes of profiles between two devices. -/
def linkClasses : List Nat :=
  [0x6C696E6B, 0x61627374]

/- Names of the classes of profiles; zero stands for any. -/
def classes : List Nat :=
  linkClasses ++
    [0, 0x73636E72, 0x6D6E7472, 0x70727472, 0x73706163, 0x6E6D636C]

/- Name of the class of profiles that list colors by name. -/
def namedColors : Nat :=
  0x6E6D636C

/- What the header of a profile says. -/
structure Header where
  isNewer : Bool
  classNumber : Nat
  channels : Nat
  space : Nat
  tags : List Tag

/- Decimal digits of a version that are above nine count as nine. -/
def validVersion
    (major minor : Nat) : Nat :=
  let high := min 9 (minor / 16)
  let low := min 9 (minor % 16)
  256 * min 9 major + 16 * high + low

/- Reads the header of a profile up to version five. -/
def readHeader?
    (file : Bytes) : Option Header := do
  let major ← file[8]?
  let minor ← file[9]?
  let version := validVersion major.toNat minor.toNat
  let classNumber ← file.long? 12
  let channels ← file.long? 16
  let space ← file.long? 20
  let name ← file.long? 36
  let tags ← tags? file
  if name != nameProfile || 0x500 < version
      || !classes.contains classNumber then none
  else pure ⟨0x400 ≤ version, classNumber, channels, space, tags⟩

/- Finds a tag by its name. -/
def Header.tag?
    (h : Header)
    (name : Nat) : Option Tag :=
  h.tags.find? (·.name == name)

/- The space of the colors of a profile. -/
def Header.connection?
    (h : Header) : Option Connection :=
  if h.space == nameLinear then some .linear
  else if h.space == nameLightness then some .lightness
  else none

/- The table of a profile, unless another one comes first. -/
def Header.table?
    (h : Header)
    (file : Bytes) : Option Table := do
  let tag ← h.tag? nameTable
  if (h.tag? nameOtherTable).isSome || h.classNumber == namedColors
      || tag.size < 8 then none
  else Table.read? file tag.offset

------------------------------------------------------------
-- Colors
------------------------------------------------------------

/- The black of a profile, given its stages. -/
def Header.black
    (h : Header)
    (space : Connection)
    (stages : List Stage) : List Float :=
  if linkClasses.contains h.classNumber then [0, 0, 0]
  else if h.isNewer then Connection.newerBlack
  else space.black (Stage.applyAll stages [1, 1, 1, 1])

/- Converts ink amounts with a table. -/
def convert
    (h : Header)
    (space : Connection)
    (t : Table)
    (c m y k : Float) : Primaries Float :=
  let isOlder := t.isOlderScale && space == .lightness
  let stages :=
    t.stages ++ (if isOlder then [Connection.olderScale] else [])
  let black := h.black space stages
  let found := Stage.applyAll stages ([c, m, y, k].map single)
  let lifted := (Connection.lift black).apply (space.toLinear found)
  match Connection.display lifted with
  | [red, green, blue] => ⟨red, green, blue⟩
  | _ => ⟨0, 0, 0⟩

------------------------------------------------------------
-- Profiles
------------------------------------------------------------

/- Reads a profile. Only one with four inks needs a table. -/
def read?
    (file : Bytes) : Except Fault (ColorProfile Float) :=
  if file.isEmpty then .error .empty
  else
    match readHeader? file with
    | none => .error .malformed
    | some h =>
        if h.channels != nameInks then .ok ⟨none⟩
        else
          match h.connection?, h.table? file with
          | some space, some t => .ok ⟨some (convert h space t)⟩
          | _, _ => .error .noTable

/- Reads a profile; a fault is given by its wording. -/
def read
    (file : List UInt8) : Except String (ColorProfile Float) :=
  (read? file.toArray).mapError Fault.message

end FixedPage.Profile
