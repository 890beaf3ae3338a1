import FixedPage.Geometry.Rectangle

/-
  This file defines fonts as glyph runs see them: a map from
  characters to glyphs, glyph metrics in units of the em, and
  their size on the page under a font matrix.

  Main declarations:
    * `Font`
    * `ScaledFont`
    * `ScaledFont.extents`
-/

namespace FixedPage

------------------------------------------------------------
-- Fonts
------------------------------------------------------------

/-
  Metrics of a glyph in em units, the y axis pointing down: its
  advance and its ink box relative to the origin.
-/
structure GlyphMetrics (α : Type) where
  advance : α
  ink : Rectangle α
deriving DecidableEq, Repr

/- A loaded font. Distances from the baseline are positive. -/
structure Font (α : Type) where
  glyph? : Char → Option Nat
  metrics : Nat → GlyphMetrics α
  ascent : α
  descent : α

/- Size of a glyph on the page. -/
structure GlyphExtents (α : Type) where
  ink : Rectangle α
  advance : Point α
deriving DecidableEq, Repr

/- A font with the matrix that takes em space to the page. -/
structure ScaledFont (α : Type) where
  font : Font α
  matrix : Matrix α

namespace ScaledFont

variable {α : Type} [Scalar α]

/- The glyph of a character, glyph zero when it has none. -/
def glyph
    (f : ScaledFont α)
    (c : Char) : Nat :=
  (f.font.glyph? c).getD 0

/- Corners of an ink box, row by row. -/
def inkCorners
    (ink : Rectangle α) : List (Point α) :=
  let right := ink.x + ink.width
  let bottom := ink.y + ink.height
  [⟨ink.x, ink.y⟩, ⟨right, ink.y⟩, ⟨ink.x, bottom⟩, ⟨right, bottom⟩]

/- Extents of a glyph under the font matrix. -/
def extents
    (f : ScaledFont α)
    (glyph : Nat) : GlyphExtents α :=
  let metrics := f.font.metrics glyph
  let corners := (inkCorners metrics.ink).map f.matrix.applyVector
  { ink := (Rectangle.bounding? corners).getD ⟨0, 0, 0, 0⟩
    advance := f.matrix.applyVector ⟨metrics.advance, 0⟩ }

/- Descent of the font on the page. -/
def descent
    (f : ScaledFont α) : α :=
  f.font.descent * f.matrix.length ⟨0, 1⟩

/- Takes a distance from em space to the page. -/
def distance
    (f : ScaledFont α)
    (v : Point α) : Point α :=
  f.matrix.applyVector v

end ScaledFont

end FixedPage
