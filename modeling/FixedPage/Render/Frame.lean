import FixedPage.Paint.Pattern
import FixedPage.Path.Segment
import FixedPage.Resource.Entry
import FixedPage.Surface.Stroke

/-
  This file defines the frames of page rendering. Every element
  that collects state across its children owns a frame; the
  frame on top of the stack sees the elements nested inside its
  owner. When the owner ends, its frame is finished into a
  product, which the frame below receives.

  Main declarations:
    * `Brush`
    * `PathState`
    * `GlyphRun`
    * `Frame`
    * `Product`
    * `Stack`
-/

namespace FixedPage

------------------------------------------------------------
-- Brushes
------------------------------------------------------------

/- The course along which a gradient changes color. -/
inductive GradientShape (α : Type) where
  | linear
      (start target : Point α)
  | radial
      (origin center : Point α)
      (radiusX radiusY : α)
deriving DecidableEq, Repr

/- A gradient as it is described, its stops in order. -/
structure GradientBrush (α : Type) where
  shape : GradientShape α
  spread : Extend
  matrix : Matrix α
  opacity : α
  stops : List (GradientStop α)
deriving DecidableEq, Repr

/- An image whose viewbox is laid over a viewport. -/
structure ImageBrush (α : Type) where
  source : String
  viewport : Rectangle α
  viewbox : Rectangle α
  matrix : Matrix α
  extend : Extend
  opacity : α
deriving DecidableEq, Repr

/- A brush whose element has ended. -/
inductive Brush (α : Type) where
  | gradient
      (g : GradientBrush α)
  | image
      (i : ImageBrush α)
deriving DecidableEq, Repr

/-
  The layout of a visual brush while its content is drawn into
  a group: `width` and `height` are the size of the tile on the
  page.
-/
structure VisualBrush (α : Type) where
  viewport : Rectangle α
  viewbox : Rectangle α
  transform : Matrix α
  extend : Extend
  width : α
  height : α
deriving DecidableEq, Repr

------------------------------------------------------------
-- Paths and glyph runs
------------------------------------------------------------

/-
  What is known of a path: geometry and clip as path data, how
  to paint it, and the flags of the figure under way.
-/
structure PathState (α : Type) where
  data? : Option String
  clip? : Option String
  fillRule : FillRule
  strokeStyle : StrokeStyle α
  fill? : Option (Pattern α)
  stroke? : Option (Pattern α)
  mask? : Option (Pattern α)
  opacity : α
  isClosed : Bool
  isFilled : Bool
deriving DecidableEq, Repr

/- A path of which nothing is known yet. -/
def PathState.initial
    {α : Type}
    [Scalar α] : PathState α where
  data? := none
  clip? := none
  fillRule := .evenOdd
  strokeStyle := .standard
  fill? := none
  stroke? := none
  mask? := none
  opacity := 1
  isClosed := false
  isFilled := true

/- What is known of a glyph run. -/
structure GlyphRun (α : Type) where
  font : String
  emSize : α
  origin : Point α
  fill? : Option (Pattern α)
  mask? : Option (Pattern α)
  text? : Option String
  indices? : Option String
  clip? : Option String
  bidiLevel : Int
  isSideways : Bool
  isItalic : Bool
  opacity : α
deriving DecidableEq, Repr

/- Odd levels run from right to left. -/
def GlyphRun.isRightToLeft
    {α : Type}
    (run : GlyphRun α) : Bool :=
  run.bidiLevel % 2 != 0

------------------------------------------------------------
-- Frames
------------------------------------------------------------

/-
  A frame for content: the page itself, or the content of a
  visual brush. `dictionaries` counts those it has opened.
-/
structure ContentFrame (α : Type) where
  visual? : Option (VisualBrush α)
  dictionaries : Nat
deriving DecidableEq, Repr

/- A canvas and which groups it has opened. -/
structure CanvasFrame (α : Type) where
  opacity : α
  mask? : Option (Pattern α)
  opacityGroup : Bool
  maskGroup : Bool
  dictionaries : Nat
deriving DecidableEq, Repr

/- A path, whether its clip is under way, and its group. -/
structure PathFrame (α : Type) where
  state : PathState α
  inClip : Bool
  opacityGroup : Bool
deriving DecidableEq, Repr

/- A geometry made of figures, drawn one by one. -/
structure GeometryFrame (α : Type) where
  state : PathState α
  figure : PathBuilder α
deriving DecidableEq, Repr

/- A glyph run and which groups it has opened. -/
structure GlyphsFrame (α : Type) where
  run : GlyphRun α
  opacityGroup : Bool
  maskGroup : Bool
deriving DecidableEq, Repr

/-
  The state of an element whose children are being read. A
  resources frame remembers whether a dictionary from another
  part is under way; a dictionary frame holds the entry under
  way.
-/
inductive Frame (α : Type) where
  | content
      (f : ContentFrame α)
  | canvas
      (f : CanvasFrame α)
  | path
      (f : PathFrame α)
  | geometry
      (f : GeometryFrame α)
  | brush
      (pattern? : Option (Pattern α))
  | gradient
      (g : GradientBrush α)
  | image
      (i : ImageBrush α)
  | glyphs
      (f : GlyphsFrame α)
  | matrix
      (m : Matrix α)
  | resources
      (remote : Bool)
  | dictionary
      (current? : Option ResourceEntry)
deriving DecidableEq, Repr

/- What a finished frame hands to the frame below. -/
inductive Product (α : Type) where
  | none
  | pattern
      (pattern? : Option (Pattern α))
  | brush
      (b : Brush α)
  | matrix
      (m : Matrix α)
  | path
      (state : PathState α)
  | visual
      (v : VisualBrush α)
deriving DecidableEq, Repr

------------------------------------------------------------
-- Stack
------------------------------------------------------------

/- A frame and the depth of the element that owns it. -/
structure Entry (α : Type) where
  frame : Frame α
  owner : Nat
deriving DecidableEq, Repr

/- The frames, the top first, and the depth of the open element. -/
structure Stack (α : Type) where
  entries : List (Entry α)
  depth : Nat
deriving DecidableEq, Repr

namespace Stack

variable {α : Type}

/- The stack of a part whose root frame sees every element. -/
def ofPart
    (root : Frame α) : Stack α :=
  ⟨[⟨root, 0⟩], 0⟩

/- The stack of a root frame whose owner has started. -/
def ofOpenElement
    (root : Frame α) : Stack α :=
  ⟨[⟨root, 1⟩], 1⟩

end Stack

end FixedPage
