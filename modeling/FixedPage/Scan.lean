import FixedPage.Bytes

/-
  This file reads numbers and bytes one after the other. A step
  that needs more bytes than there are fails; steps over bytes
  may leave the data behind.

  Main declarations:
    * `Scan`
    * `Scan.number`
    * `Scan.signed`
    * `Scan.take`
    * `Scan.several`
-/

namespace FixedPage

/- A step that takes bytes and may run out of them. -/
abbrev Scan (β : Type) : Type :=
  StateT (List UInt8) Option β

namespace Scan

/- Takes one byte. -/
def byte : Scan Nat := fun bytes =>
  match bytes with
  | b :: rest => some (b.toNat, rest)
  | [] => none

/- Takes some bytes. -/
def take
    (n : Nat) : Scan (List UInt8) := fun bytes =>
  if n ≤ bytes.length then some (bytes.take n, bytes.drop n)
  else none

/- Steps over some bytes, which need not be there. -/
def skip
    (n : Nat) : Scan Unit := fun bytes =>
  some ((), bytes.drop n)

/- Takes a number of some bytes, the largest first. -/
def number
    (size : Nat) : Scan Nat := do
  let found ← take size
  pure (ByteOrder.largestFirst.number found)

/- Takes a whole number of some bytes with a sign. -/
def signed
    (size : Nat) : Scan Int := do
  let n ← number size
  pure (Int.bmod n (Nat.pow 2 (8 * size)))

/- A number of two bytes. -/
def word : Scan Nat :=
  number 2

/- A number of four bytes. -/
def long : Scan Nat :=
  number 4

/- Takes a step again and again. -/
def several
    {β : Type}
    (step : Scan β) :
    Nat → Scan (List β)
| 0 => pure []
| n + 1 => do
    let x ← step
    let xs ← several step n
    pure (x :: xs)

/- The value that a step finds at an offset. -/
def find?
    {β : Type}
    (step : Scan β)
    (bytes : List UInt8)
    (offset : Nat) : Option β :=
  if offset ≤ bytes.length then
    (step.run (bytes.drop offset)).map (·.1)
  else none

end Scan

end FixedPage
