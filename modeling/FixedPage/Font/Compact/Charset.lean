import FixedPage.Scan

/-
  This file reads the names of the glyphs of compact fonts, as
  numbers of well-known names, to find the glyph of a name.

  Main declarations:
    * `Charset`
    * `Charset.read?`
    * `Charset.nameOfCode`
    * `Charset.glyphOfCode?`
-/

namespace FixedPage

/- Names of glyphs that follow one another. -/
structure NameRange where
  first : Nat
  more : Nat
deriving DecidableEq, Repr

/-
  The names of the glyphs of a font: the names every font knows
  in their order, special names, or the names behind that of the
  first glyph, in ranges.
-/
inductive Charset where
  | standard
  | special
  | ranges
      (names : List NameRange)
deriving DecidableEq, Repr

namespace Charset

/- Takes ranges until there are as many names as glyphs. -/
def takeRanges
    (moreSize : Nat) :
    Nat → Nat → Scan (List NameRange)
| 0, _ => pure []
| fuel + 1, glyphs =>
    if glyphs == 0 then pure []
    else do
      let first ← Scan.word
      let more ← Scan.number moreSize
      if glyphs < more + 1 then failure
      else do
        let rest ← takeRanges moreSize fuel (glyphs - (more + 1))
        pure (⟨first, more⟩ :: rest)

/- Takes the names of some glyphs, of which the first has none. -/
def takeNext
    (glyphs : Nat) : Scan Charset := do
  let named := glyphs - 1
  match ← Scan.byte with
  | 0 => do
      let names ← Scan.several Scan.word named
      pure (.ranges (names.map fun name => ⟨name, 0⟩))
  | 1 => .ranges <$> takeRanges 1 named named
  | 2 => .ranges <$> takeRanges 2 named named
  | _ => failure

/- Reads the names of some glyphs; some places have a meaning. -/
def read?
    (bytes : List UInt8)
    (place? : Option Nat)
    (glyphs : Nat) : Option Charset :=
  match place? with
  | none => some .standard
  | some 0 => some .standard
  | some 1 => some .special
  | some 2 => some .special
  | some place => Scan.find? (takeNext glyphs) bytes place

/- The glyph of a name in ranges; `glyph` is that of the first. -/
def findFrom
    (name glyph : Nat) :
    List NameRange → Option Nat
| [] => none
| range :: rest =>
    if range.first ≤ name && name ≤ range.first + range.more then
      some (glyph + (name - range.first))
    else findFrom name (glyph + range.more + 1) rest

/- Name of a code in the standard encoding; zero if it has none. -/
def nameOfCode
    (code : Nat) : Nat :=
  let runs : List (Nat × Nat × Nat) :=
    [(32, 126, 1), (161, 175, 96), (177, 180, 111), (182, 189, 115),
      (191, 191, 123), (193, 200, 124), (202, 203, 132),
      (205, 208, 134), (225, 225, 138), (227, 227, 139),
      (232, 235, 140), (241, 241, 144), (245, 245, 145),
      (248, 251, 146)]
  match runs.find? fun (first, last, _) => first ≤ code && code ≤ last with
  | some (first, _, name) => name + (code - first)
  | none => 0

/- The last code that stands for a glyph of the standard names. -/
def lastCode : Nat :=
  228

/- The glyph of a code in the standard encoding. -/
def glyphOfCode?
    (c : Charset)
    (code : Nat) : Option Nat :=
  let name := nameOfCode code
  match c with
  | .standard => if code ≤ lastCode then some name else none
  | .special => none
  | .ranges names => if name == 0 then some 0 else findFrom name 1 names

end Charset

end FixedPage
