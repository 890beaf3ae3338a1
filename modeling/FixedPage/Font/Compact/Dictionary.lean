import FixedPage.Decimal.Machine
import FixedPage.Decimal.Numeral
import FixedPage.Scan

/-
  This file reads the lists of objects in compact fonts, places
  of the objects first and then their bytes; and their
  dictionaries: operators, each behind the numbers it is applied
  to.

  Main declarations:
    * `CompactIndex`
    * `CompactIndex.takeNext`
    * `CompactIndex.get?`
    * `CompactEntry`
    * `CompactEntry.readAll`
    * `CompactEntry.place?`
    * `CompactEntry.range?`
-/

namespace FixedPage

------------------------------------------------------------
-- Lists
------------------------------------------------------------

/-
  Objects of several bytes. A place counts from the first byte
  of the objects and is missing if it is not valid; the last one
  is where the objects end.
-/
structure CompactIndex where
  places : Array (Option Nat)
  content : List UInt8

namespace CompactIndex

/- The list without objects. -/
def empty : CompactIndex :=
  ⟨#[], []⟩

/- Number of objects. -/
def size
    (x : CompactIndex) : Nat :=
  x.places.size - 1

/- Takes a place; stored places start with one. -/
def takePlace
    (size : Nat) : Scan (Option Nat) := do
  let n ← Scan.number size
  pure (if n == 0 then none else some (n - 1))

/-
  Takes a list of objects, whose number is stored in some bytes.
  If it does not say where it ends there is nothing behind its
  places.
-/
def takeNext
    (countSize : Nat) : Scan CompactIndex := do
  let count ← Scan.number countSize
  if count == 0 || count == Nat.pow 2 32 - 1 then pure empty
  else do
    let size ← Scan.byte
    if size == 0 || 4 < size
        || Nat.pow 2 32 ≤ (count + 1) * size then failure
    else do
      let places ← Scan.several (takePlace size) (count + 1)
      match places.getLast?.join with
      | none => pure empty
      | some last => do
          let content ← Scan.take last
          pure ⟨places.toArray, content⟩

/- The bytes of an object. -/
def get?
    (x : CompactIndex)
    (i : Nat) : Option (List UInt8) := do
  let first ← (← x.places[i]?)
  let last ← (← x.places[i + 1]?)
  if first ≤ last && last ≤ x.content.length then
    some ((x.content.drop first).take (last - first))
  else none

end CompactIndex

------------------------------------------------------------
-- Dictionaries
------------------------------------------------------------

/- An operator and the bytes of the numbers before it. -/
structure CompactEntry where
  operator : Nat
  operands : List UInt8
deriving DecidableEq, Repr

namespace CompactEntry

------------------------------------------------------------
-- Numbers
------------------------------------------------------------

/- The character that half a byte stands for in a decimal. -/
def decimalChars? : Nat → Option (List Char)
| 10 => some ['.']
| 11 => some ['E']
| 12 => some ['E', '-']
| 14 => some ['-']
| n => if n < 10 then some [Char.ofNat ('0'.toNat + n)] else none

/- The mark that ends a decimal. -/
def decimalEnd : Nat :=
  15

/- Most characters of a decimal. -/
def maxDecimal : Nat :=
  64

/- Takes the characters of a decimal. -/
def takeDecimal : Nat → Scan (List Char)
| 0 => failure
| fuel + 1 => do
    let b ← Scan.byte
    if b / 16 == decimalEnd then pure []
    else
      match decimalChars? (b / 16) with
      | none => failure
      | some high =>
          if b % 16 == decimalEnd then pure high
          else
            match decimalChars? (b % 16) with
            | none => failure
            | some low => do
                let rest ← takeDecimal fuel
                pure (high ++ low ++ rest)

/- Takes a number whose first byte is given. -/
def takeNumber
    (b : Nat) : Scan Float :=
  if b == 28 then Float.ofInt <$> Scan.signed 2
  else if b == 29 then Float.ofInt <$> Scan.signed 4
  else if b == 30 then do
    let cs ← takeDecimal (maxDecimal + 1)
    match if maxDecimal < cs.length then none else Scalar.read? cs with
    | some x => pure x
    | none => failure
  else if 32 ≤ b && b ≤ 246 then pure (Float.ofInt (b - 139))
  else if 247 ≤ b && b ≤ 250 then do
    let low ← Scan.byte
    pure (Float.ofInt ((b - 247) * 256 + low + 108))
  else if 251 ≤ b && b ≤ 254 then do
    let low ← Scan.byte
    pure (Float.ofInt (-(b - 251) * 256 - low - 108))
  else failure

/- Steps over the rest of a decimal. -/
def skipDecimal : Nat → Scan Unit
| 0 => pure ()
| fuel + 1 => fun bytes =>
    match bytes with
    | [] => some ((), [])
    | b :: rest =>
        if b.toNat / 16 == decimalEnd || b.toNat % 16 == decimalEnd then
          some ((), rest)
        else skipDecimal fuel rest

/- Steps over a number whose first byte is given. -/
def skipNumber
    (b : Nat) : Scan Unit :=
  if b == 28 then Scan.skip 2
  else if b == 29 then Scan.skip 4
  else if b == 30 then fun bytes => skipDecimal bytes.length bytes
  else if 247 ≤ b then Scan.skip 1
  else pure ()

/- A byte that is an operator or starts one. -/
def isOperator
    (b : Nat) : Bool :=
  b ≤ 27 || b == 31 || b == 255

------------------------------------------------------------
-- Entries
------------------------------------------------------------

/-
  Takes the next operator. The result also holds how many bytes
  are left before it.
-/
def takeOperator : Nat → Scan Nat
| 0 => failure
| fuel + 1 => do
    let b ← Scan.byte
    if b == 12 then do
      let second ← Scan.byte
      pure (1200 + second)
    else if isOperator b then pure b
    else do
      skipNumber b
      takeOperator fuel

/- Reads entries up to one that is cut off. -/
def readFrom :
    Nat → List UInt8 → List CompactEntry
| 0, _ => []
| fuel + 1, bytes =>
    match (takeOperator bytes.length).run bytes with
    | none => []
    | some (operator, rest) =>
        ⟨operator, bytes.take (bytes.length - rest.length)⟩
          :: readFrom fuel rest

/- Reads the entries of a dictionary. -/
def readAll
    (bytes : List UInt8) : List CompactEntry :=
  readFrom bytes.length bytes

/- Reads numbers up to an operator. -/
def readNumbers? :
    Nat → List UInt8 → Option (List Float)
| 0, _ => some []
| _, [] => some []
| fuel + 1, b :: bytes =>
    if isOperator b.toNat then some []
    else do
      let (x, rest) ← (takeNumber b.toNat).run bytes
      let xs ← readNumbers? fuel rest
      pure (x :: xs)

/- The numbers of an entry, of which some are kept. -/
def numbers?
    (e : CompactEntry)
    (most : Nat) : Option (List Float) :=
  readNumbers? most e.operands

/- A place or a size, which is never negative. -/
def natural?
    (x : Float) : Option Nat :=
  let n := x.toInt32.toInt
  if n < 0 then none else some n.toNat

/- Most numbers of an entry. -/
def maxNumbers : Nat :=
  48

/- The single number of an entry, as a place. -/
def place?
    (e : CompactEntry) : Option Nat := do
  match ← e.numbers? maxNumbers with
  | [x] => natural? x
  | _ => none

/- The two numbers of an entry, as a size and a place before it. -/
def range?
    (e : CompactEntry) : Option (Nat × Nat) := do
  match ← e.numbers? maxNumbers with
  | [size, place] => do
      let size ← natural? size
      let place ← natural? place
      pure (place, size)
  | _ => none

/- The last entry of an operator. -/
def last?
    (entries : List CompactEntry)
    (operator : Nat) : Option CompactEntry :=
  entries.reverse.find? (·.operator == operator)

end CompactEntry

end FixedPage
