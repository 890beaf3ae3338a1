import FixedPage.Proofs.Surface.Brackets
import FixedPage.Render.Frame

/-
  This file says what kinds of frames there are, which of them
  may lie on which, and what a frame holds open. A stack on
  which every frame lies on one that may bear it is well grown.

  Main declarations:
    * `FrameKind`
    * `FrameKind.bears`
    * `FrameOutline`
    * `Frame.outline`
    * `Stack.WellGrown`
-/

namespace FixedPage

variable {α : Type}

------------------------------------------------------------
-- Kinds
------------------------------------------------------------

/- The kinds of frames; content is a page or a visual brush. -/
inductive FrameKind where
  | page
  | visual
  | canvas
  | path
  | geometry
  | brush
  | gradient
  | image
  | glyphs
  | matrix
  | resources
  | dictionary
deriving DecidableEq, Repr

namespace FrameKind

/- The kinds of frames that may lie on a kind of frame. -/
def bears : FrameKind → List FrameKind
| page => [canvas, path, glyphs, resources]
| visual => [canvas, path, glyphs, resources, matrix]
| canvas => [canvas, path, glyphs, resources, matrix, brush]
| path => [brush, matrix, geometry]
| geometry => [matrix]
| brush => [gradient, image, visual]
| gradient => [matrix]
| image => [matrix]
| glyphs => [brush, matrix]
| resources => [dictionary]
| matrix => []
| dictionary => []

/- The kinds of frames that transform what is drawn. -/
def turns : FrameKind → Bool
| canvas => true
| path => true
| geometry => true
| glyphs => true
| _ => false

/-
  The kinds of frames inside of which an element may transform
  what is drawn when it starts: the geometry of a path does.
-/
def turnsEarly : FrameKind → Bool
| path => true
| _ => false

/- Whatever transforms early transforms. -/
theorem turns_of_turnsEarly
    {kind : FrameKind}
    (hEarly : kind.turnsEarly = true) :
    kind.turns = true := by
  cases kind <;> first | rfl | cases hEarly

/- The kinds of frames of elements that draw. -/
def draws : FrameKind → Bool
| canvas => true
| path => true
| glyphs => true
| _ => false

end FrameKind

------------------------------------------------------------
-- Outlines
------------------------------------------------------------

/-
  The kind of a frame, the groups it has open, whether it knows
  a mask that asks for a group, and the number of dictionaries
  it has opened.
-/
structure FrameOutline where
  kind : FrameKind
  inMask : Bool
  inOpacity : Bool
  hasMask : Bool
  dictionaries : Nat
deriving DecidableEq, Repr

namespace FrameOutline

/- The outline of a frame that holds nothing open. -/
def bare
    (kind : FrameKind) : FrameOutline :=
  ⟨kind, false, false, false, 0⟩

/- Brackets of the groups of an element, the last one first. -/
def groups
    (o : FrameOutline) : List Bracket :=
  (if o.inMask then [.group] else [])
    ++ (if o.inOpacity then [.group] else [])

/- Brackets that a frame holds open, the last one first. -/
def brackets
    (o : FrameOutline) : List Bracket :=
  if o.kind.draws then o.groups ++ [.save]
  else if o.kind = .visual then [.group, .save]
  else []

end FrameOutline

namespace Frame

/- The outline of a frame. -/
def outline : Frame α → FrameOutline
| .content f =>
    ⟨if f.visual?.isSome then .visual else .page,
      false, false, false, f.dictionaries⟩
| .canvas f =>
    ⟨.canvas, f.maskGroup, f.opacityGroup, f.mask?.isSome,
      f.dictionaries⟩
| .path f => ⟨.path, false, f.opacityGroup, false, 0⟩
| .glyphs f =>
    ⟨.glyphs, f.maskGroup, f.opacityGroup, f.run.mask?.isSome, 0⟩
| .geometry _ => .bare .geometry
| .brush _ => .bare .brush
| .gradient _ => .bare .gradient
| .image _ => .bare .image
| .matrix _ => .bare .matrix
| .resources _ => .bare .resources
| .dictionary _ => .bare .dictionary

/- The kind of a frame. -/
def kind
    (frame : Frame α) : FrameKind :=
  frame.outline.kind

/- A frame is in the group of its mask when it has a mask. -/
def Consistent
    (frame : Frame α) : Prop :=
  frame.outline.inMask = frame.outline.hasMask

@[simp] theorem kind_canvas
    (f : CanvasFrame α) :
    (canvas f).kind = .canvas :=
  rfl

@[simp] theorem kind_path
    (f : PathFrame α) :
    (path f).kind = .path :=
  rfl

@[simp] theorem kind_geometry
    (f : GeometryFrame α) :
    (geometry f).kind = .geometry :=
  rfl

@[simp] theorem kind_brush
    (pattern? : Option (Pattern α)) :
    (brush pattern?).kind = .brush :=
  rfl

@[simp] theorem kind_gradient
    (g : GradientBrush α) :
    (gradient g).kind = .gradient :=
  rfl

@[simp] theorem kind_image
    (i : ImageBrush α) :
    (image i).kind = .image :=
  rfl

@[simp] theorem kind_glyphs
    (f : GlyphsFrame α) :
    (glyphs f).kind = .glyphs :=
  rfl

@[simp] theorem kind_matrix
    (m : Matrix α) :
    (matrix m).kind = .matrix :=
  rfl

@[simp] theorem kind_resources
    (remote : Bool) :
    (resources remote : Frame α).kind = .resources :=
  rfl

@[simp] theorem kind_dictionary
    (current? : Option ResourceEntry) :
    (dictionary current? : Frame α).kind = .dictionary :=
  rfl

/- Content is a page or a visual brush. -/
theorem kind_content
    (f : ContentFrame α) :
    (content f).kind =
      if f.visual?.isSome then .visual else .page :=
  rfl

/- A frame of the kind of a brush is one. -/
theorem eq_brush_of_kind
    {frame : Frame α}
    (hKind : frame.kind = .brush) :
    ∃ pattern?, frame = .brush pattern? := by
  cases frame with
  | brush pattern? => exact ⟨pattern?, rfl⟩
  | content f =>
      simp only [kind, outline] at hKind
      split at hKind <;> cases hKind
  | _ => cases hKind

/- A frame of the kind of a path is one. -/
theorem eq_path_of_kind
    {frame : Frame α}
    (hKind : frame.kind = .path) :
    ∃ f, frame = .path f := by
  cases frame with
  | path f => exact ⟨f, rfl⟩
  | content f =>
      rw [kind_content] at hKind
      split at hKind <;> cases hKind
  | _ => cases hKind

/- A frame of the kind of a geometry is one. -/
theorem eq_geometry_of_kind
    {frame : Frame α}
    (hKind : frame.kind = .geometry) :
    ∃ g, frame = .geometry g := by
  cases frame with
  | geometry g => exact ⟨g, rfl⟩
  | content f =>
      rw [kind_content] at hKind
      split at hKind <;> cases hKind
  | _ => cases hKind

/- A frame of the kind of a matrix is one. -/
theorem eq_matrix_of_kind
    {frame : Frame α}
    (hKind : frame.kind = .matrix) :
    ∃ m, frame = .matrix m := by
  cases frame with
  | matrix m => exact ⟨m, rfl⟩
  | content f =>
      rw [kind_content] at hKind
      split at hKind <;> cases hKind
  | _ => cases hKind

/- A geometry lies on a path. -/
theorem eq_path_of_bears
    {frame : Frame α}
    (hBears : FrameKind.geometry ∈ frame.kind.bears) :
    ∃ f, frame = .path f := by
  cases frame with
  | path f => exact ⟨f, rfl⟩
  | content f =>
      rw [kind_content] at hBears
      split at hBears <;> simp [FrameKind.bears] at hBears
  | _ => simp [FrameKind.bears] at hBears

end Frame

------------------------------------------------------------
-- Stacks
------------------------------------------------------------

/-
  Every frame lies on one that may bear it, and the bottom frame
  has a given kind.
-/
inductive Stack.WellGrown
    (root : FrameKind) :
    List (Entry α) → Prop
| empty :
    WellGrown root []
| root
    {bottom : Entry α}
    (hRoot : bottom.frame.kind = root) :
    WellGrown root [bottom]
| lie
    {top parent : Entry α}
    {below : List (Entry α)}
    (hBears : top.frame.kind ∈ parent.frame.kind.bears)
    (hBelow : WellGrown root (parent :: below)) :
    WellGrown root (top :: parent :: below)

namespace Stack.WellGrown

variable {root : FrameKind} {top top' : Entry α}
variable {below : List (Entry α)}

/- What lies below the top is well grown. -/
theorem tail
    (hGrown : WellGrown root (top :: below)) :
    WellGrown root below := by
  cases hGrown with
  | root _ => exact .empty
  | lie _ hBelow => exact hBelow

/- The top frame may change but for its kind. -/
theorem replace
    (hGrown : WellGrown root (top :: below))
    (hKind : top'.frame.kind = top.frame.kind) :
    WellGrown root (top' :: below) := by
  cases hGrown with
  | root hRoot => exact .root (hKind.trans hRoot)
  | lie hBears hBelow => exact .lie (hKind ▸ hBears) hBelow

/- A child may be put on a frame that bears it. -/
theorem push
    {child : Entry α}
    (hGrown : WellGrown root (top :: below))
    (hBears : child.frame.kind ∈ top.frame.kind.bears) :
    WellGrown root (child :: top :: below) :=
  .lie hBears hGrown

end Stack.WellGrown

end FixedPage
