/-
  This file defines prefix codes. A code is fixed by how many
  words there are of each length: words of a length follow each
  other, and the first one follows the words that are shorter.

  Main declarations:
    * `PrefixCode`
    * `PrefixCode.ofLengths`
    * `PrefixCode.take`
-/

namespace FixedPage

/-
  A prefix code: how many words there are of each length from
  one bit on, and the symbols by length and then by order.
-/
structure PrefixCode where
  counts : List Nat
  symbols : Array Nat

namespace PrefixCode

/-
  The code in which each symbol has a word of a given length, up
  to a longest one. Symbols without a word have length zero.
-/
def ofLengths
    (longest : Nat)
    (lengths : List Nat) : PrefixCode :=
  let marked := lengths.zipIdx
  let ofLength := fun n => (marked.filter (·.1 == n + 1)).map (·.2)
  let groups := (List.range longest).map ofLength
  ⟨groups.map List.length, groups.flatten.toArray⟩

/-
  Takes the word of a symbol bit by bit. `word` holds the bits so
  far, `first` the least word of the next length and `index` the
  place of its symbol.
-/
def takeFrom
    {m : Type → Type}
    [Monad m]
    (bit invalid : m Nat)
    (symbols : Array Nat)
    (word first index : Nat) :
    List Nat → m Nat
| [] => invalid
| count :: longer => do
    let last ← bit
    let word := 2 * word + last
    if word < first + count then
      match symbols[index + (word - first)]? with
      | some symbol => pure symbol
      | none => invalid
    else
      takeFrom bit invalid symbols word (2 * (first + count))
        (index + count) longer

/- Takes a symbol, given steps for a bit and for wrong words. -/
def take
    {m : Type → Type}
    [Monad m]
    (bit invalid : m Nat)
    (code : PrefixCode) : m Nat :=
  takeFrom bit invalid code.symbols 0 0 0 code.counts

end PrefixCode

end FixedPage
