import FixedPage.Bytes
import FixedPage.Image.PrefixCode

/-
  This file expands compressed data: blocks of bytes that are
  stored as they are, or written as symbols of a prefix code that
  stand for bytes and for copies of what was written before.

  Main declarations:
    * `Inflate.Stop`
    * `Inflate.BlockCodes`
    * `Inflate.expand`
    * `Inflate.firstBytes?`
    * `Inflate.allBytes?`
-/

namespace FixedPage.Inflate

------------------------------------------------------------
-- Bits
------------------------------------------------------------

/- Why expanding ends before the last block does. -/
inductive Stop where
  | enough
  | exhausted
  | malformed
deriving DecidableEq, Repr

/-
  Bytes and the place of the next bit, lowest bits first; what
  they expanded to so far, and how much of it is wanted.
-/
structure Source where
  bytes : Bytes
  position : Nat
  wanted? : Option Nat
  out : Bytes

/- A step that takes bits. What was written survives a stop. -/
abbrev Bits (β : Type) : Type :=
  ExceptT Stop (StateM Source) β

/- Data that makes no sense. -/
def malformed
    {β : Type} : Bits β :=
  throw .malformed

/- Takes one bit. -/
def bit : Bits Nat := do
  let s ← get
  match s.bytes[s.position / 8]? with
  | some byte =>
      set { s with position := s.position + 1 }
      pure (byte.toNat >>> (s.position % 8) % 2)
  | none => throw .exhausted

/- Takes a number of some bits, the lowest first. -/
def number : Nat → Bits Nat
| 0 => pure 0
| n + 1 => do
    let low ← bit
    let high ← number n
    pure (low + 2 * high)

/- Takes the bits up to the end of a byte. -/
def align : Bits Unit :=
  modify fun s => { s with position := (s.position + 7) / 8 * 8 }

/- Writes a byte, and stops when no more are wanted. -/
def write
    (b : UInt8) : Bits Unit := do
  modify fun s => { s with out := s.out.push b }
  let s ← get
  if s.wanted? == some s.out.size then throw .enough else pure ()

------------------------------------------------------------
-- Prefix codes
------------------------------------------------------------

/- The most bits of a word. -/
def longestWord : Nat :=
  15

/- Any bits start with a word of some lengths. -/
def isComplete
    (lengths : List Nat) : Bool :=
  let used := lengths.filter (0 < ·)
  let parts := used.map fun n => Nat.pow 2 (longestWord - n)
  parts.foldr (· + ·) 0 == Nat.pow 2 longestWord

/- No symbol has a word, or only one has, of a single bit. -/
def isTrivial
    (lengths : List Nat) : Bool :=
  let used := lengths.filter (0 < ·)
  used == [] || used == [1]

/- The code of some lengths. -/
def codeOf
    (lengths : List Nat) : PrefixCode :=
  .ofLengths longestWord lengths

/- Takes one symbol. -/
def takeSymbol
    (code : PrefixCode) : Bits Nat :=
  code.take bit malformed

/- The codes of a block: bytes and lengths, and distances. -/
structure BlockCodes where
  literals : PrefixCode
  distances : PrefixCode

/- The codes of blocks that do not define any. -/
def fixedCodes : BlockCodes where
  literals :=
    codeOf
      (List.replicate 144 8 ++ List.replicate 112 9
        ++ List.replicate 24 7 ++ List.replicate 8 8)
  distances := codeOf (List.replicate 32 5)

------------------------------------------------------------
-- Code definitions
------------------------------------------------------------

/- The symbol that ends a block. -/
def endSymbol : Nat :=
  256

/- Most symbols for bytes and lengths, and for distances. -/
def maxLiterals : Nat := 286
def maxDistances : Nat := 30

/- The order in which the lengths of the first code are given. -/
def lengthOrder : List Nat :=
  [16, 17, 18, 0, 8, 7, 9, 6, 10, 5, 11, 4, 12, 3, 13, 2, 14, 1, 15]

/-
  Takes lengths of words, the last one first, until there are
  `wanted` of them. Symbols from 16 on repeat a length.
-/
def takeLengths
    (code : PrefixCode)
    (wanted : Nat) :
    Nat → List Nat → Bits (List Nat)
| 0, _ => malformed
| fuel + 1, lengths =>
    if wanted ≤ lengths.length then
      if lengths.length == wanted then pure lengths.reverse
      else malformed
    else do
      let more := fun (base bits value : Nat) => do
        let n ← number bits
        takeLengths code wanted fuel
          (List.replicate (base + n) value ++ lengths)
      match ← takeSymbol code, lengths with
      | 16, last :: _ => more 3 2 last
      | 16, [] => malformed
      | 17, _ => more 3 3 0
      | 18, _ => more 11 7 0
      | n, _ => takeLengths code wanted fuel (n :: lengths)

/- Takes several numbers of three bits. -/
def takeSmall : Nat → Bits (List Nat)
| 0 => pure []
| n + 1 => do
    let x ← number 3
    let xs ← takeSmall n
    pure (x :: xs)

/- The codes of some lengths, if blocks may have them. -/
def codesOf
    (literals distances : List Nat) : Bits BlockCodes :=
  if literals.getD endSymbol 0 != 0
      && isComplete literals
      && (isComplete distances
        || isTrivial distances) then
    pure ⟨codeOf literals, codeOf distances⟩
  else malformed

/- Takes the codes that a block defines. -/
def takeCodes : Bits BlockCodes := do
  let literals := (← number 5) + 257
  let distances := (← number 5) + 1
  let given := (← number 4) + 4
  if maxLiterals < literals || maxDistances < distances then malformed
  else
    let small ← takeSmall given
    let table := lengthOrder.zip small
    let lengths :=
      (List.range 19).map fun symbol => (table.lookup symbol).getD 0
    if !isComplete lengths then malformed
    else
      let wanted := literals + distances
      let found ←
        takeLengths (codeOf lengths) wanted (wanted + 1) []
      codesOf (found.take literals) (found.drop literals)

------------------------------------------------------------
-- Blocks
------------------------------------------------------------

/- Least length and number of further bits of a length symbol. -/
def lengthRanges : Array (Nat × Nat) :=
  #[(3, 0), (4, 0), (5, 0), (6, 0), (7, 0), (8, 0), (9, 0),
    (10, 0), (11, 1), (13, 1), (15, 1), (17, 1), (19, 2), (23, 2),
    (27, 2), (31, 2), (35, 3), (43, 3), (51, 3), (59, 3), (67, 4),
    (83, 4), (99, 4), (115, 4), (131, 5), (163, 5), (195, 5),
    (227, 5), (258, 0)]

/- Least distance and number of further bits of its symbol. -/
def distanceRanges : Array (Nat × Nat) :=
  #[(1, 0), (2, 0), (3, 0), (4, 0), (5, 1), (7, 1), (9, 2),
    (13, 2), (17, 3), (25, 3), (33, 4), (49, 4), (65, 5), (97, 5),
    (129, 6), (193, 6), (257, 7), (385, 7), (513, 8), (769, 8),
    (1025, 9), (1537, 9), (2049, 10), (3073, 10), (4097, 11),
    (6145, 11), (8193, 12), (12289, 12), (16385, 13), (24577, 13)]

/- Takes the rest of a number whose range a symbol gives. -/
def takeInRange
    (ranges : Array (Nat × Nat))
    (symbol : Nat) : Bits Nat :=
  match ranges[symbol]? with
  | some (least, bits) => do
      let more ← number bits
      pure (least + more)
  | none => malformed

/- Copies bytes that were written some distance before. -/
def copyBack
    (distance : Nat) : Nat → Bits Unit
| 0 => pure ()
| n + 1 => do
    let out := (← get).out
    if out.size < distance then malformed
    else
      match out[out.size - distance]? with
      | some byte => do
          write byte
          copyBack distance n
      | none => malformed

/- Takes symbols up to the end of a block. -/
def takeSymbols
    (codes : BlockCodes) : Nat → Bits Unit
| 0 => malformed
| fuel + 1 => do
    let symbol ← takeSymbol codes.literals
    if symbol < endSymbol then
      write (UInt8.ofNat symbol)
      takeSymbols codes fuel
    else if symbol == endSymbol then pure ()
    else
      let length ← takeInRange lengthRanges (symbol - (endSymbol + 1))
      let distance ←
        takeInRange distanceRanges (← takeSymbol codes.distances)
      copyBack distance length
      takeSymbols codes fuel

/- Takes bytes that are stored as they are. -/
def takeBytes : Nat → Bits Unit
| 0 => pure ()
| n + 1 => do
    let byte ← number 8
    write (UInt8.ofNat byte)
    takeBytes n

/- Takes a block of stored bytes, whose size is given twice. -/
def takeStored : Bits Unit := do
  align
  let size ← number 16
  let complement ← number 16
  if size + complement != 0xFFFF then malformed
  else takeBytes size

/- Takes one block; `fuel` bounds the number of its symbols. -/
def takeBlock
    (fuel : Nat) : Bits Unit := do
  match ← number 2 with
  | 0 => takeStored
  | 1 => takeSymbols fixedCodes fuel
  | 2 => takeSymbols (← takeCodes) fuel
  | _ => malformed

/- Takes blocks up to the last one. -/
def takeBlocks
    (fuel : Nat) : Nat → Bits Unit
| 0 => malformed
| n + 1 => do
    let last ← bit
    takeBlock fuel
    if last == 1 then pure () else takeBlocks fuel n

------------------------------------------------------------
-- Data
------------------------------------------------------------

/- One step of the checksum of expanded data. -/
def checksumStep
    (sums : Nat × Nat)
    (b : UInt8) : Nat × Nat :=
  let low := (sums.1 + b.toNat) % 65521
  (low, (sums.2 + low) % 65521)

/- Checksum of expanded data. -/
def checksum
    (b : Bytes) : Nat :=
  let sums := b.foldl checksumStep (1, 0)
  65536 * sums.2 + sums.1

/- Takes the checksum that follows the last block. -/
def takeChecksum : Bits Unit := do
  align
  let stored ← takeSome 4
  if ByteOrder.largestFirst.number stored == checksum (← get).out then
    pure ()
  else malformed
where
  takeSome : Nat → Bits (List UInt8)
  | 0 => pure []
  | n + 1 => do
      let byte ← number 8
      let rest ← takeSome n
      pure (UInt8.ofNat byte :: rest)

/-
  Expands compressed data. Every block and every symbol takes a
  bit at least.
-/
def expand
    (wanted? : Option Nat)
    (data : Bytes) : Option Stop × Bytes :=
  let fuel := 8 * data.size + 1
  let run := do
    takeBlocks fuel fuel
    takeChecksum
  let (result, source) := (run.run).run ⟨data, 16, wanted?, #[]⟩
  match result with
  | .ok () => (none, source.out)
  | .error stop => (some stop, source.out)

/- The two bytes before compressed data are in order. -/
def isFramed
    (data : Bytes) : Bool :=
  match data.word? 0 with
  | some header =>
      header / 256 % 16 == 8 && header / 4096 < 8
        && header % 31 == 0 && header / 32 % 2 == 0
  | none => false

/-
  The first bytes that data expands to, if there are that many.
  What follows them is not looked at.
-/
def firstBytes?
    (wanted : Nat)
    (data : Bytes) : Option Bytes :=
  let (_, out) := expand (some wanted) data
  if isFramed data && out.size == wanted then some out else none

/-
  All bytes that data expands to, also if it breaks off, but not
  if it is malformed.
-/
def allBytes?
    (data : Bytes) : Option Bytes :=
  let (stop?, out) := expand none data
  if isFramed data && stop? != some .malformed then some out else none

end FixedPage.Inflate
