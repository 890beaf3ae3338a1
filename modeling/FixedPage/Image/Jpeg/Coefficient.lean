import FixedPage.Image.Jpeg.Segment

/-
  This file takes the coefficients of blocks from coded data. A
  block is given at once or by several passes, each of which adds
  bits to some coefficients.

  Main declarations:
    * `Jpeg.Reader`
    * `Jpeg.Pass`
    * `Jpeg.Pass.take`
-/

namespace FixedPage.Jpeg

------------------------------------------------------------
-- Bits
------------------------------------------------------------

/-
  Coded data and the place of the next bit, highest bits first;
  the last first coefficient of each component; and the number
  of blocks that get nothing more.
-/
structure Reader where
  bytes : Bytes
  position : Nat
  predictions : Array Int
  waiting : Nat

/- A step that takes bits and may find no symbol. -/
abbrev Step (β : Type) : Type :=
  StateT Reader Option β

/- Takes one bit. Behind the end all bits are zero. -/
def bit : Step Nat := do
  let r ← get
  set { r with position := r.position + 1 }
  let byte := (r.bytes.getD (r.position / 8) 0).toNat
  pure (byte >>> (7 - r.position % 8) % 2)

/- Takes a number of some bits, the highest first. -/
def number : Nat → Step Nat
| 0 => pure 0
| n + 1 => do
    let high ← bit
    let low ← number n
    pure (high * Nat.pow 2 n + low)

/- Takes a number whose highest bit is zero if it is negative. -/
def signedNumber
    (size : Nat) : Step Int := do
  let n ← number size
  if 2 * n < Nat.pow 2 size then pure ((n : Int) - Int.pow 2 size + 1)
  else pure n

/- Takes one symbol. -/
def symbol
    (code : PrefixCode) : Step Nat :=
  code.take bit failure

------------------------------------------------------------
-- Blocks
------------------------------------------------------------

/- Coefficients in the order in which they are coded. -/
abbrev Block : Type :=
  Array Int

/- A block without any coefficient. -/
def emptyBlock : Block :=
  Array.replicate blockSize 0

/- Takes the first coefficient, which adds to the last one. -/
def takeFirst
    (code : PrefixCode)
    (component : Nat) : Step Int := do
  let size ← symbol code
  let difference ← signedNumber size
  let r ← get
  let value := r.predictions.getD component 0 + difference
  set { r with
    predictions := r.predictions.setIfInBounds component value }
  pure value

/- Sets a coefficient; those behind the last one fall onto it. -/
def setAt
    (block : Block)
    (i : Nat)
    (value : Int) : Block :=
  block.setIfInBounds (min i (blockSize - 1)) value

/- Says that this block and some more get nothing more. -/
def wait
    (bits : Nat) : Step Unit := do
  let more ← number bits
  modify fun r => { r with waiting := Nat.pow 2 bits + more }

/-
  Takes further coefficients, each with the number of zeros
  before it. Every symbol goes on by one coefficient at least.
  The symbol that ends a block can do so for several blocks.
-/
def takeFurther
    (code : PrefixCode)
    (endsSeveral : Bool)
    (last low : Nat) :
    Nat → Nat → Block → Step Block
| 0, _, block => pure block
| fuel + 1, i, block =>
    if last < i then pure block
    else do
      let s ← symbol code
      let zeros := s / 16
      match s % 16 with
      | 0 =>
          if zeros == 15 then
            takeFurther code endsSeveral last low fuel (i + 16) block
          else do
            if endsSeveral then
              wait zeros
              modify fun r => { r with waiting := r.waiting - 1 }
            pure block
      | size => do
          let value ← signedNumber size
          takeFurther code endsSeveral last low fuel (i + zeros + 1)
            (setAt block (i + zeros) (value * Int.pow 2 low))

/- Takes a bit that moves a coefficient away from zero. -/
def refineOne
    (low : Nat)
    (value : Int) : Step Int := do
  let b ← bit
  let step : Int := b * Int.pow 2 low
  if value < 0 then pure (value - step) else pure (value + step)

/-
  Refines the coefficients up to the zero that lies behind some
  others, and sets that one. Gives the place behind it.
-/
def refineUpTo
    (last low : Nat)
    (value : Int) :
    Nat → Nat → Nat → Block → Step (Nat × Block)
| 0, i, _, block => pure (i, block)
| fuel + 1, i, zeros, block =>
    if last < i then pure (i, block)
    else
      match block.getD i 0 with
      | 0 =>
          if zeros == 0 then
            pure (i + 1, if value == 0 then block else setAt block i value)
          else
            refineUpTo last low value fuel (i + 1) (zeros - 1) block
      | old => do
          let new ← refineOne low old
          refineUpTo last low value fuel (i + 1) zeros
            (setAt block i new)

/- Refines all coefficients that are left of a block. -/
def refineRest
    (last low i : Nat)
    (block : Block) : Step Block := do
  let (_, block) ←
    refineUpTo last low 0 (blockSize + 1) i (blockSize + 1) block
  modify fun r => { r with waiting := r.waiting - 1 }
  pure block

/- Takes new coefficients and refines those between them. -/
def refineFurther
    (code : PrefixCode)
    (last low : Nat) :
    Nat → Nat → Block → Step Block
| 0, _, block => pure block
| fuel + 1, i, block =>
    if last < i then pure block
    else do
      let s ← symbol code
      let zeros := s / 16
      if s % 16 == 0 && zeros != 15 then
        wait zeros
        refineRest last low i block
      else
        let value : Int ←
          if s % 16 == 0 then pure 0
          else do
            let b ← bit
            pure (if b == 1 then Int.pow 2 low else -(Int.pow 2 low))
        let (next, block) ←
          refineUpTo last low value (blockSize + 1) i zeros block
        refineFurther code last low fuel next block

------------------------------------------------------------
-- Passes
------------------------------------------------------------

/- Which bits of a block a scan gives. -/
inductive Pass where
  | whole
  | first
  | firstBit
  | further
  | furtherBit
deriving DecidableEq, Repr

/- The pass that a scan makes. -/
def Scan.pass?
    (scan : Scan)
    (isProgressive : Bool) : Option Pass :=
  if !isProgressive then some .whole
  else if scan.first == 0 then
    if scan.last != 0 then none
    else if scan.high == 0 then some .first
    else some .firstBit
  else if scan.parts.length != 1 then none
  else if scan.high == 0 then some .further
  else some .furtherBit

/- Takes what a pass adds to a block of a component. -/
def Pass.take
    (pass : Pass)
    (scan : Scan)
    (firstCode furtherCode : PrefixCode)
    (component : Nat)
    (block : Block) : Step Block := do
  let waiting := (← get).waiting
  match pass with
  | .whole =>
      let value ← takeFirst firstCode component
      takeFurther furtherCode false (blockSize - 1) 0 blockSize 1
        (setAt emptyBlock 0 value)
  | .first =>
      let value ← takeFirst firstCode component
      pure (setAt block 0 (value * Int.pow 2 scan.low))
  | .firstBit =>
      let b ← bit
      pure (setAt block 0 (block.getD 0 0 + b * Int.pow 2 scan.low))
  | .further =>
      if waiting == 0 then
        takeFurther furtherCode true scan.last scan.low blockSize
          scan.first block
      else
        modify fun r => { r with waiting := r.waiting - 1 }
        pure block
  | .furtherBit =>
      if waiting == 0 then
        refineFurther furtherCode scan.last scan.low blockSize
          scan.first block
      else refineRest scan.last scan.low scan.first block

end FixedPage.Jpeg
