import FixedPage.Render.Reference

/-
  This file defines how brushes and the elements inside them
  start.

  Main declarations:
    * `SolidBrush.read`
    * `GradientBrush.read`
    * `GradientBrush.startChild`
    * `ImageBrush.read`
    * `VisualBrush.begin`
    * `startBrush`
-/

namespace FixedPage

open Markup

variable {α : Type} [Scalar α]

------------------------------------------------------------
-- Solid colors
------------------------------------------------------------

/- The attributes of a brush of one color. -/
structure SolidBrush (α : Type) where
  color? : Option (Color α)
  opacity : α
deriving DecidableEq, Repr

namespace SolidBrush

/- Takes an attribute. -/
def takeAttribute
    (env : Environment α)
    (e : Element)
    (b : SolidBrush α)
    (a : Attribute) : Action α (SolidBrush α) :=
  match a.name with
  | "Color" => do
      let color? ← colorValue env e a.name a.value
      pure { b with color? := color? }
  | "Opacity" => do
      let opacity ←
        Action.ofExcept (e.read a.name Value.number? a.value)
      pure { b with opacity := opacity }
  | name =>
      if name == keyAttribute then pure b
      else Action.fail (e.unknownAttribute name)

/- Pattern of the brush; none when its color is not known. -/
def pattern?
    (b : SolidBrush α) : Option (Pattern α) :=
  b.color?.map fun color => .solid (color.withOpacity b.opacity)

/- Reads a brush of one color. -/
def read
    (env : Environment α)
    (e : Element) : Action α (SolidBrush α) := do
  let b ← e.attributes.foldlM (takeAttribute env e) ⟨none, 1⟩
  let _ ← Action.ofExcept (e.required "Color")
  pure b

end SolidBrush

------------------------------------------------------------
-- Common attributes
------------------------------------------------------------

/-
  What brushes have in common: how they go on outside of their
  content, their transformation and their opacity.
-/
structure BrushStyle (α : Type) where
  extend : Extend
  matrix : Matrix α
  opacity : α
deriving DecidableEq, Repr

/-
  The attributes of a kind of brush: the one that says how the
  brush goes on, how it is read, and those to pass over.
-/
structure BrushGrammar where
  extendName : String
  extendOf : String → Extend
  passed : List String

namespace BrushGrammar

/- Attributes of gradients. -/
def gradient
    (course : List String) : BrushGrammar :=
  ⟨"SpreadMethod", .ofSpread,
    course ++ ["MappingMode", "ColorInterpolationMode", keyAttribute]⟩

/- Attributes of tiles. -/
def tile
    (content : List String) : BrushGrammar :=
  ⟨"TileMode", .ofTiling,
    content ++ ["Viewport", "Viewbox", "ViewportUnits",
      "ViewboxUnits", keyAttribute]⟩

end BrushGrammar

namespace BrushStyle

/- Takes an attribute. -/
def takeAttribute
    (env : Environment α)
    (grammar : BrushGrammar)
    (e : Element)
    (s : BrushStyle α)
    (a : Attribute) : Action α (BrushStyle α) :=
  if grammar.passed.contains a.name then pure s
  else if a.name == grammar.extendName then
    pure { s with extend := grammar.extendOf a.value }
  else if a.name == "Opacity" then do
    let opacity ←
      Action.ofExcept (e.read a.name Value.number? a.value)
    pure { s with opacity := opacity }
  else if a.name == "Transform" then do
    let matrix ← transformValue env e a.name a.value
    pure { s with matrix := matrix }
  else Action.fail (e.unknownAttribute a.name)

/- Reads the common attributes of a brush. -/
def read
    (env : Environment α)
    (grammar : BrushGrammar)
    (extend : Extend)
    (e : Element) : Action α (BrushStyle α) :=
  e.attributes.foldlM (takeAttribute env grammar e)
    ⟨extend, .identity, 1⟩

end BrushStyle

------------------------------------------------------------
-- Gradients
------------------------------------------------------------

/- Reads the course of a gradient along a line. -/
def GradientShape.readLinear
    (e : Element) : Except Error (GradientShape α) := do
  let start ← e.required "StartPoint"
  let target ← e.required "EndPoint"
  let start ← e.read "StartPoint" Value.point? start
  let target ← e.read "EndPoint" Value.point? target
  pure (.linear start target)

/- Reads the course of a gradient between ellipses. -/
def GradientShape.readRadial
    (e : Element) : Except Error (GradientShape α) := do
  let origin ← e.readRequired "GradientOrigin" Value.point?
  let center ← e.readRequired "Center" Value.point?
  let radiusX ← e.readRequired "RadiusX" Value.number?
  let radiusY ← e.readRequired "RadiusY" Value.number?
  pure (.radial origin center radiusX radiusY)

namespace GradientBrush

/- Reads a gradient that has no stops yet. -/
def read
    (env : Environment α)
    (course : List String)
    (shapeOf : Element → Except Error (GradientShape α))
    (e : Element) : Action α (GradientBrush α) := do
  let style ← BrushStyle.read env (.gradient course) .pad e
  let shape ← Action.ofExcept (shapeOf e)
  pure ⟨shape, style.extend, style.matrix, style.opacity, []⟩

/- Reads a gradient along a line. -/
def readLinear
    (env : Environment α)
    (e : Element) : Action α (GradientBrush α) :=
  read env ["StartPoint", "EndPoint"] GradientShape.readLinear e

/- Reads a gradient between ellipses. -/
def readRadial
    (env : Environment α)
    (e : Element) : Action α (GradientBrush α) :=
  read env ["GradientOrigin", "Center", "RadiusX", "RadiusY"]
    GradientShape.readRadial e

/- Reads a stop; there is none when its color is not known. -/
def readStop
    (env : Environment α)
    (e : Element) : Action α (Option (GradientStop α)) := do
  let known := ["Color", "Offset"]
  match e.attributes.find? fun a => !known.contains a.name with
  | some a => Action.fail (e.unknownAttribute a.name)
  | none => pure ()
  let color ← Action.ofExcept (e.required "Color")
  let offset ← Action.ofExcept (e.readRequired "Offset" Value.number?)
  let color? ← colorValue env e "Color" color
  pure (color?.map fun color => ⟨offset, color⟩)

/- Starts an element inside a gradient. -/
def startChild
    (env : Environment α)
    (g : GradientBrush α)
    (e : Element) :
    Action α (GradientBrush α × Option (Frame α)) :=
  match e.name with
  | "LinearGradientBrush.GradientStops"
  | "RadialGradientBrush.GradientStops" => pure (g, none)
  | "LinearGradientBrush.Transform"
  | "RadialGradientBrush.Transform" =>
      pure (g, some (.matrix .identity))
  | "GradientStop" => do
      let stop? ← readStop env e
      pure ({ g with stops := g.stops ++ stop?.toList }, none)
  | _ => Action.fail e.unknown

end GradientBrush

------------------------------------------------------------
-- Images
------------------------------------------------------------

namespace ImageBrush

/- Reads an image brush. -/
def read
    (env : Environment α)
    (e : Element) : Action α (ImageBrush α) := do
  let style ← BrushStyle.read env (.tile ["ImageSource"]) .none e
  Action.ofExcept do
    let source ← e.required "ImageSource"
    let viewport ← e.required "Viewport"
    let viewbox ← e.required "Viewbox"
    let viewport ← e.read "Viewport" Value.box? viewport
    let viewbox ← e.read "Viewbox" Value.box? viewbox
    let name := PartName.resolve env.source (Text.trimString source)
    pure ⟨name, viewport, viewbox, style.matrix, style.extend,
      style.opacity⟩

/- Starts an element inside an image brush. -/
def startChild
    (e : Element) : Except Error (Option (Frame α)) :=
  if e.name == "ImageBrush.Transform" then
    .ok (some (.matrix .identity))
  else .error e.unknown

end ImageBrush

------------------------------------------------------------
-- Visual brushes
------------------------------------------------------------

namespace VisualBrush

omit [Scalar α] in
/- Fails when too many visual brushes are under way. -/
def checkDepth
    (limit : Nat) : Action α Unit :=
  Action.ofEffect fun st =>
    if st.visualDepth < limit then (.ok (), st)
    else (.error (.nestingTooDeep limit), st)

/- Reads the layout of a visual brush. -/
def read
    (env : Environment α)
    (e : Element) : Action α (VisualBrush α) := do
  let style ←
    BrushStyle.read env (.tile ["Opacity", "Visual"]) .none e
  Action.ofExcept do
    let viewport ← e.required "Viewport"
    let viewbox ← e.required "Viewbox"
    let viewport ← e.read "Viewport" Value.box? viewport
    let viewbox ← e.read "Viewbox" Value.box? viewbox
    pure
      { viewport := viewport
        viewbox := viewbox
        transform := style.matrix
        extend := style.extend
        width := style.matrix.length ⟨viewport.width, 0⟩
        height := style.matrix.length ⟨0, viewport.height⟩ }

/- Lays the viewbox over the tile, unless the viewbox is empty. -/
def fitViewbox
    (v : VisualBrush α)
    (s : Surface α) : Surface α :=
  if v.viewbox.width == 0 || v.viewbox.height == 0 then s
  else
    (s.scale (v.width / v.viewbox.width)
      (v.height / v.viewbox.height)).translate
        (-v.viewbox.x) (-v.viewbox.y)

/- Opens the group that the content is drawn into. -/
def openGroup
    (v : VisualBrush α)
    (s : Surface α) : Surface α :=
  let tile : Rectangle α := ⟨0, 0, v.width, v.height⟩
  v.fitViewbox (s.save.newPath.rectangle tile).clip.pushGroup

/- Starts a visual brush. -/
def begin
    (env : Environment α)
    (e : Element) : Action α (VisualBrush α) := do
  checkDepth env.options.maxVisualDepth
  let v ← read env e
  Action.change fun st =>
    { st with
      surface := v.openGroup st.surface
      visualDepth := st.visualDepth + 1 }
  pure v

end VisualBrush

------------------------------------------------------------
-- Brushes
------------------------------------------------------------

/- Starts the element of a brush. -/
def startBrush
    (env : Environment α)
    (pattern? : Option (Pattern α))
    (e : Element) :
    Action α (Option (Pattern α) × Option (Frame α)) :=
  match e.name with
  | "SolidColorBrush" => do
      let b ← SolidBrush.read env e
      pure (b.pattern?, none)
  | "LinearGradientBrush" => do
      let g ← GradientBrush.readLinear env e
      pure (pattern?, some (.gradient g))
  | "RadialGradientBrush" => do
      let g ← GradientBrush.readRadial env e
      pure (pattern?, some (.gradient g))
  | "ImageBrush" => do
      let i ← ImageBrush.read env e
      pure (pattern?, some (.image i))
  | "VisualBrush" => do
      let v ← VisualBrush.begin env e
      pure (pattern?, some (.content ⟨some v, 0⟩))
  | _ => Action.fail e.unknown

end FixedPage
