/-
  This file decodes UTF-16 code units.

  Main declarations:
    * `Utf16.units`
    * `Utf16.decode?`
    * `Utf16.charLength`
-/

namespace FixedPage.Text.Utf16

/- Which byte of a code unit comes first. -/
inductive Order where
  | littleEndian
  | bigEndian
deriving DecidableEq, Repr

/- Groups bytes into code units; an odd last byte is dropped. -/
def units
    (order : Order) :
    List UInt8 → List Nat
| b :: c :: rest =>
    let unit :=
      match order with
      | .littleEndian => c.toNat * 256 + b.toNat
      | .bigEndian => b.toNat * 256 + c.toNat
    unit :: units order rest
| _ => []

/- A code unit that starts a surrogate pair. -/
def isHigh
    (unit : Nat) : Bool :=
  0xD800 ≤ unit && unit < 0xDC00

/- A code unit that ends a surrogate pair. -/
def isLow
    (unit : Nat) : Bool :=
  0xDC00 ≤ unit && unit < 0xE000

/- Decodes code units; there is no result for a lone surrogate. -/
def decode? : List Nat → Option (List Char)
| [] => some []
| unit :: rest =>
    if isHigh unit then
      match rest with
      | [] => none
      | low :: rest =>
          if isLow low then
            let code :=
              0x10000 + (unit - 0xD800) * 1024 + (low - 0xDC00)
            (decode? rest).map (Char.ofNat code :: ·)
          else none
    else if isLow unit then none
    else (decode? rest).map (Char.ofNat unit :: ·)

/- Number of code units that a character takes. -/
def charLength
    (c : Char) : Nat :=
  if c.toNat < 0x10000 then 1 else 2

end FixedPage.Text.Utf16
