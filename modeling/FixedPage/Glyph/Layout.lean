import FixedPage.Glyph.Font

/-
  This file defines the result of laying out a glyph run and the
  layout of a text without glyph indices, one glyph for each
  character.

  Main declarations:
    * `PositionedGlyph`
    * `TextCluster`
    * `GlyphLayout`
    * `Placement`
    * `GlyphLayout.ofText`
-/

namespace FixedPage

/- A glyph placed on the page. -/
structure PositionedGlyph (α : Type) where
  index : Nat
  position : Point α
deriving DecidableEq, Repr

/- Bytes of the text that some glyphs stand for. -/
structure TextCluster where
  bytes : Nat
  glyphs : Nat
deriving DecidableEq, Repr

/- Glyphs and clusters of a run in order. -/
structure GlyphLayout (α : Type) where
  glyphs : List (PositionedGlyph α)
  clusters : List TextCluster
deriving DecidableEq, Repr

/- Where and in which direction a run is laid out. -/
structure Placement (α : Type) where
  origin : Point α
  rightToLeft : Bool
  sideways : Bool
deriving DecidableEq, Repr

/- Bytes that characters take in UTF-8. -/
def utf8Length
    (cs : List Char) : Nat :=
  (cs.map Char.utf8Size).foldr (· + ·) 0

namespace Placement

variable {α : Type} [Scalar α]

/-
  The position of a glyph whose origin is at `p` before it is
  shifted for its direction.
-/
def shift
    (q : Placement α)
    (e : GlyphExtents α)
    (p : Point α) : Point α :=
  let two : α := Nat.cast 2
  let p : Point α :=
    if q.sideways then ⟨p.x - e.ink.x, p.y - e.advance.y / two⟩
    else p
  if q.rightToLeft then ⟨p.x - e.advance.x, p.y⟩ else p

/- The distance to the next glyph that a font gives. -/
def naturalAdvance
    (q : Placement α)
    (f : ScaledFont α)
    (e : GlyphExtents α) : α :=
  if q.sideways then -e.ink.x + f.descent else e.advance.x

/- Turns a distance around for text from right to left. -/
def direct
    (q : Placement α)
    (x : α) : α :=
  if q.rightToLeft then -x else x

end Placement

namespace GlyphLayout

variable {α : Type} [Scalar α]

/- The layout without glyphs. -/
def empty : GlyphLayout α :=
  ⟨[], []⟩

/- Puts a glyph and its cluster in front of a layout. -/
def cons
    (glyph : PositionedGlyph α)
    (cluster : TextCluster)
    (layout : GlyphLayout α) : GlyphLayout α :=
  ⟨glyph :: layout.glyphs, cluster :: layout.clusters⟩

/- One glyph for each character, from the pen position on. -/
def ofText
    (f : ScaledFont α)
    (q : Placement α)
    (pen : Point α) :
    List Char → GlyphLayout α
| [] => .empty
| c :: rest =>
    let index := f.glyph c
    let extents := f.extents index
    let advance := q.direct (q.naturalAdvance f extents)
    cons ⟨index, q.shift extents pen⟩ ⟨c.utf8Size, 1⟩
      (ofText f q ⟨pen.x + advance, pen.y⟩ rest)

end GlyphLayout

end FixedPage
