import FixedPage.Bytes

/-
  This file reads the fields of images in the TIFF format. The
  values of a field are read only when they are asked for.

  Main declarations:
    * `Tiff.Field`
    * `Tiff.Fields`
    * `Tiff.Fields.read?`
    * `Tiff.Fields.list?`
    * `Tiff.Fields.optional?`
-/

namespace FixedPage.Tiff

------------------------------------------------------------
-- Fields
------------------------------------------------------------

/-
  A numbered property of an image: the kind and the number of
  its values, and where they or their offset are stored.
-/
structure Field where
  number : Nat
  kind : Nat
  count : Nat
  place : Nat
deriving DecidableEq, Repr

/- The numbers of fields. -/
namespace Number

/- Size of the image. -/
def width : Nat := 256
def height : Nat := 257

/- Samples of a pixel and what they stand for. -/
def bits : Nat := 258
def colors : Nat := 262
def samples : Nat := 277
def furtherSamples : Nat := 338
def formats : Nat := 339

/- How samples are stored. -/
def packing : Nat := 259
def arrangement : Nat := 284
def prediction : Nat := 317

/- Pieces as wide as the image. -/
def stripOffsets : Nat := 273
def stripRows : Nat := 278
def stripSizes : Nat := 279

/- Pieces of any width. -/
def tileWidth : Nat := 322
def tileHeight : Nat := 323
def tileOffsets : Nat := 324
def tileSizes : Nat := 325

end Number

/- The fields of an image in a file. -/
structure Fields where
  file : Bytes
  order : ByteOrder
  fields : List Field

/- Kinds of values that there are. -/
def isKind
    (kind : Nat) : Bool :=
  (1 ≤ kind && kind ≤ 13) || (16 ≤ kind && kind ≤ 18)

/- Bytes that a value takes that is a number without a sign. -/
def valueSize? : Nat → Option Nat
| 1 => some 1
| 3 => some 2
| 4 => some 4
| 7 => some 1
| 13 => some 4
| 16 => some 8
| 18 => some 8
| _ => none

/- Reads a field. -/
def readField?
    (order : ByteOrder)
    (file : Bytes)
    (offset : Nat) : Option Field := do
  let number ← Bytes.number? order 2 file offset
  let kind ← Bytes.number? order 2 file (offset + 2)
  let count ← Bytes.number? order 4 file (offset + 4)
  let _ ← file.slice? (offset + 8) 4
  pure ⟨number, kind, count, offset + 8⟩

namespace Fields

/- Reads the order of the bytes of numbers. -/
def readOrder?
    (file : Bytes) : Option ByteOrder := do
  let lead ← file.slice? 0 4
  if lead == #[0x49, 0x49, 0x2A, 0x00] then pure .smallestFirst
  else if lead == #[0x4D, 0x4D, 0x00, 0x2A] then pure .largestFirst
  else none

/-
  Reads the fields of the first image. The offset of the next
  image follows them. Fields of unknown kinds are left out.
-/
def read?
    (file : Bytes) : Option Fields := do
  let order ← readOrder? file
  let start ← Bytes.number? order 4 file 4
  if start == 0 then none
  else
    let count ← Bytes.number? order 2 file start
    let fields ←
      (List.range count).mapM fun i =>
        readField? order file (start + 2 + 12 * i)
    let _ ← file.slice? (start + 2 + 12 * count) 4
    pure ⟨file, order, fields.filter fun f => isKind f.kind⟩

------------------------------------------------------------
-- Values
------------------------------------------------------------

/- Values of a field; few values stand in the field itself. -/
def valuesOf?
    (fs : Fields)
    (f : Field) : Option (List Nat) :=
  if f.count == 0 then some []
  else do
    let size ← valueSize? f.kind
    let start ←
      if size * f.count ≤ 4 then pure f.place
      else Bytes.number? fs.order 4 fs.file f.place
    let _ ← fs.file.slice? start (size * f.count)
    (List.range f.count).mapM fun i =>
      Bytes.number? fs.order size fs.file (start + size * i)

/- The last field of a number. -/
def field?
    (fs : Fields)
    (number : Nat) : Option Field :=
  fs.fields.reverse.find? (·.number == number)

/- A field of a number is there. -/
def has
    (fs : Fields)
    (number : Nat) : Bool :=
  (fs.field? number).isSome

/- Values of a field, or others when it is missing. -/
def list?
    (fs : Fields)
    (number : Nat)
    (otherwise : List Nat) : Option (List Nat) :=
  match fs.field? number with
  | some f => fs.valuesOf? f
  | none => some otherwise

/- The only value of a field. -/
def required?
    (fs : Fields)
    (number : Nat) : Option Nat := do
  match ← fs.list? number [] with
  | [n] => pure n
  | _ => none

/- The only value of a field, or another when it is missing. -/
def optional?
    (fs : Fields)
    (number otherwise : Nat) : Option Nat :=
  if fs.has number then fs.required? number else some otherwise

end Fields

end FixedPage.Tiff
