import FixedPage.Geometry.Rectangle
import FixedPage.Scalar

/-
  This file defines what a surface paints with. A pattern has a
  content, a way to go on outside of it, and a matrix that takes
  the page to the space of its content.

  Main declarations:
    * `Color`
    * `Image`
    * `Extend`
    * `GradientStop`
    * `Layer`
    * `PatternKind`
    * `Pattern`
-/

namespace FixedPage

------------------------------------------------------------
-- Colors
------------------------------------------------------------

/- Red, green, blue and opacity, each from zero to one. -/
structure Color (α : Type) where
  red : α
  green : α
  blue : α
  alpha : α
deriving DecidableEq, Repr

/- Multiplies the opacity of a color. -/
def Color.withOpacity
    {α : Type}
    [Scalar α]
    (c : Color α)
    (opacity : α) : Color α :=
  { c with alpha := c.alpha * opacity }

------------------------------------------------------------
-- Images
------------------------------------------------------------

/-
  Rows of red, green, blue and opacity bytes, and how many
  pixels an inch takes on each axis.
-/
structure Image (α : Type) where
  width : Nat
  height : Nat
  pixels : List UInt8
  resolutionX : α
  resolutionY : α
deriving DecidableEq, Repr

/- Resolution of images that declare none. -/
def Image.defaultResolution
    {α : Type}
    [Scalar α] : α :=
  Nat.cast 96

------------------------------------------------------------
-- Contents
------------------------------------------------------------

/- How a pattern goes on outside of its content. -/
inductive Extend where
  | none
  | pad
  | repeat
  | reflect
deriving DecidableEq, Repr

/- Reads the spread of a gradient. -/
def Extend.ofSpread : String → Extend
| "Pad" => .pad
| "Reflect" => .reflect
| "Repeat" => .repeat
| _ => .none

/- Reads how tiles repeat; flipped tiles are not repeated. -/
def Extend.ofTiling : String → Extend
| "Tile" => .repeat
| _ => .none

/- A color at a place along a gradient. -/
structure GradientStop (α : Type) where
  offset : α
  color : Color α
deriving DecidableEq, Repr

/-
  An offscreen group that was closed, or the result of closing
  a group where none was open.
-/
inductive Layer where
  | group
      (id : Nat)
  | unmatched
deriving DecidableEq, Repr

/- What a pattern shows. -/
inductive PatternKind (α : Type) where
  | solid
      (color : Color α)
  | linear
      (start target : Point α)
      (stops : List (GradientStop α))
  | radial
      (focus : Point α)
      (focusRadius : α)
      (center : Point α)
      (radius : α)
      (stops : List (GradientStop α))
  | image
      (image : Image α)
      (source : Rectangle α)
  | layer
      (layer : Layer)
deriving DecidableEq, Repr

/- A paint source. -/
structure Pattern (α : Type) where
  kind : PatternKind α
  extend : Extend
  matrix : Matrix α
deriving DecidableEq, Repr

namespace Pattern

variable {α : Type} [Scalar α]

/- A pattern in page space. -/
def ofKind
    (kind : PatternKind α) : Pattern α :=
  ⟨kind, .none, .identity⟩

/- A single color everywhere. -/
def solid
    (color : Color α) : Pattern α :=
  ofKind (.solid color)

end Pattern

end FixedPage
