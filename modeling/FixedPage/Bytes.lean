/-
  This file reads numbers that are stored in bytes. A number that
  reaches beyond the end has no value.

  Main declarations:
    * `Bytes`
    * `ByteOrder`
    * `Bytes.number?`
    * `Bytes.slice?`
-/

namespace FixedPage

/- Bytes that are addressed by offset. -/
abbrev Bytes : Type :=
  Array UInt8

/- Which byte of a number comes first. -/
inductive ByteOrder where
  | largestFirst
  | smallestFirst
deriving DecidableEq, Repr

/- The number that digits in base 256 stand for. -/
def ByteOrder.number
    (order : ByteOrder)
    (digits : List UInt8) : Nat :=
  match order with
  | .largestFirst => digits.foldl (fun n b => 256 * n + b.toNat) 0
  | .smallestFirst => digits.foldr (fun b n => 256 * n + b.toNat) 0

namespace Bytes

/- The bytes from an offset on, if there are that many. -/
def slice?
    (b : Bytes)
    (offset size : Nat) : Option Bytes :=
  if offset + size ≤ b.size then some (b.extract offset (offset + size))
  else none

/- The number stored in some bytes. -/
def number?
    (order : ByteOrder)
    (size : Nat)
    (b : Bytes)
    (offset : Nat) : Option Nat :=
  (b.slice? offset size).map fun found => order.number found.toList

/- A number of two bytes, the largest first. -/
def word?
    (b : Bytes)
    (offset : Nat) : Option Nat :=
  number? .largestFirst 2 b offset

/- A number of four bytes, the largest first. -/
def long?
    (b : Bytes)
    (offset : Nat) : Option Nat :=
  number? .largestFirst 4 b offset

/- The whole number that a word stands for when it has a sign. -/
def signedWord
    (n : Nat) : Int :=
  Int.bmod n (Nat.pow 2 16)

/- A whole number of two bytes with a sign. -/
def signed?
    (b : Bytes)
    (offset : Nat) : Option Int :=
  (b.word? offset).map signedWord

/- The entries of a table, each of the same size. -/
def entries?
    (b : Bytes)
    (offset size count : Nat) : Option (List Bytes) :=
  (List.range count).mapM fun i => b.slice? (offset + i * size) size

/- A table of words. -/
def words?
    (b : Bytes)
    (offset count : Nat) : Option (Array Nat) :=
  (b.slice? offset (2 * count)).map fun table =>
    (Array.range count).filterMap fun i => table.word? (2 * i)

end Bytes

end FixedPage
