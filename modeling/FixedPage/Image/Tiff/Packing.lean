import FixedPage.Image.Inflate

/-
  This file expands the compressed pieces of images in the TIFF
  format: by runs of bytes, by a dictionary that grows with what
  was written, or as zipped data.

  Main declarations:
    * `Tiff.Packing`
    * `Tiff.Runs.expand`
    * `Tiff.Dictionary.expand?`
    * `Tiff.Packing.expand?`
-/

namespace FixedPage.Tiff

------------------------------------------------------------
-- Runs
------------------------------------------------------------

namespace Runs

/-
  Expands runs. A small number announces one more bytes than it
  says, a large one that a byte is repeated. Each run takes a
  byte at least, which bounds them.
-/
def expandFrom :
    Nat → List UInt8 → Bytes → Bytes
| fuel + 1, head :: rest, out =>
    let n := head.toNat
    if n < 128 then
      expandFrom fuel (rest.drop (n + 1))
        (out ++ (rest.take (n + 1)).toArray)
    else if n == 128 then expandFrom fuel rest out
    else
      match rest with
      | value :: rest =>
          expandFrom fuel rest (out ++ Array.replicate (257 - n) value)
      | [] => out
| _, _, out => out

/- Expands the runs of some bytes. -/
def expand
    (data : Bytes) : Bytes :=
  expandFrom data.size data.toList #[]

end Runs

------------------------------------------------------------
-- Dictionaries
------------------------------------------------------------

/-
  The bytes that codes stand for, and what the last code stood
  for. Two codes have other meanings.
-/
structure Dictionary where
  entries : Array Bytes
  last? : Option Bytes

namespace Dictionary

/- The code that empties the dictionary. -/
def clearCode : Nat :=
  256

/- The code that ends the data. -/
def endCode : Nat :=
  257

/- Most codes of a dictionary. -/
def maxCodes : Nat :=
  4096

/- The dictionary in which a code stands for each byte. -/
def initial : Dictionary where
  entries :=
    (Array.range 256).map (fun n => #[UInt8.ofNat n]) ++ #[#[], #[]]
  last? := none

/- Bits of the next code. -/
def codeBits
    (d : Dictionary) : Nat :=
  let next := d.entries.size + 1
  if next < 512 then 9
  else if next < 1024 then 10
  else if next < 2048 then 11
  else 12

/- A number of some bits, the highest first. -/
def bits?
    (data : Bytes)
    (position count : Nat) : Option Nat :=
  (List.range count).foldlM (fun n i => do
    let place := position + i
    let byte ← data[place / 8]?
    pure (2 * n + byte.toNat >>> (7 - place % 8) % 2)) 0

/-
  The bytes of a code. A code that is yet to be added stands for
  the last bytes and their first one again.
-/
def entryAt?
    (d : Dictionary)
    (code : Nat) : Option Bytes :=
  match d.last? with
  | none => if code < 256 then d.entries[code]? else none
  | some last =>
      if code == d.entries.size then some (last ++ last.extract 0 1)
      else d.entries[code]?

/- Remembers a code; the last bytes grow by its first one. -/
def remember
    (d : Dictionary)
    (entry : Bytes) : Dictionary :=
  match d.last? with
  | some last =>
      if d.entries.size < maxCodes then
        ⟨d.entries.push (last ++ entry.extract 0 1), some entry⟩
      else ⟨d.entries, some entry⟩
  | none => ⟨d.entries, some entry⟩

/-
  Expands codes until enough is written. Each takes nine bits at
  least, which bounds them.
-/
def expandFrom?
    (data : Bytes)
    (wanted : Nat) :
    Nat → Nat → Dictionary → Bytes → Option Bytes
| 0, _, _, _ => none
| fuel + 1, position, d, out =>
    if wanted ≤ out.size then some out
    else do
      let code ← bits? data position d.codeBits
      let next := position + d.codeBits
      if code == clearCode then
        expandFrom? data wanted fuel next initial out
      else if code == endCode then none
      else
        let entry ← d.entryAt? code
        expandFrom? data wanted fuel next (d.remember entry)
          (out ++ entry)

/- Expands the codes of some bytes until enough is written. -/
def expand?
    (data : Bytes)
    (wanted : Nat) : Option Bytes :=
  expandFrom? data wanted (data.size + 2) 0 initial #[]

end Dictionary

------------------------------------------------------------
-- Packing
------------------------------------------------------------

/- How the pieces of an image are compressed. -/
inductive Packing where
  | plain
  | runs
  | dictionary
  | zipped
deriving DecidableEq, Repr

namespace Packing

/- The packing of a number. -/
def ofNumber? : Nat → Option Packing
| 1 => some .plain
| 5 => some .dictionary
| 8 => some .zipped
| 32773 => some .runs
| 32946 => some .zipped
| _ => none

/- What is there of some bytes of a file. -/
def available
    (file : Bytes)
    (offset size : Nat) : Bytes :=
  file.extract offset (offset + size)

/-
  Expands a piece of a file until enough is written. The size of
  pieces that are plain or zipped is not looked at.
-/
def expand?
    (packing : Packing)
    (file : Bytes)
    (offset size wanted : Nat) : Option Bytes := do
  let found ←
    match packing with
    | .plain => file.slice? offset wanted
    | .runs => some (Runs.expand (available file offset size))
    | .dictionary =>
        Dictionary.expand? (available file offset size) wanted
    | .zipped =>
        Inflate.allBytes? (file.extract offset file.size)
  found.slice? 0 wanted

end Packing

end FixedPage.Tiff
