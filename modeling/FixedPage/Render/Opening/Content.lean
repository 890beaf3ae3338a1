import FixedPage.Render.Opening.Brush
import FixedPage.Render.Opening.Glyphs
import FixedPage.Render.Opening.Path

/-
  This file defines how content starts: canvases, paths and
  glyph runs on a page, inside a canvas or inside a visual brush,
  and the dictionaries beside them. With them every frame knows
  what an element does when it starts.

  Main declarations:
    * `CanvasFrame.begin`
    * `startContent`
    * `startResources`
    * `startElement`
-/

namespace FixedPage

open Markup

variable {α : Type} [Scalar α]

------------------------------------------------------------
-- Canvases
------------------------------------------------------------

/- The attributes of a canvas. -/
structure CanvasStyle (α : Type) where
  clip? : Option String
  opacity : α
  mask? : Option (Pattern α)
deriving DecidableEq, Repr

namespace CanvasStyle

/- Takes an attribute; unknown ones are passed over. -/
def takeAttribute
    (env : Environment α)
    (lookup : BrushLookup α)
    (e : Element)
    (s : CanvasStyle α)
    (a : Attribute) : Action α (CanvasStyle α) :=
  match a.name with
  | "RenderTransform" => do
      let matrix ← transformValue env e a.name a.value
      Action.draw (Surface.transform matrix)
      pure s
  | "Clip" => do
      let data ← geometryValue env a.value
      pure { s with clip? := some data }
  | "Opacity" => do
      let opacity ←
        Action.ofExcept (e.read a.name Value.number? a.value)
      pure { s with opacity := opacity }
  | "OpacityMask" => do
      let pattern? ← brushValue env lookup e a.name a.value
      pure { s with mask? := pattern? }
  | _ => pure s

/- Reads the attributes of a canvas and clips to it. -/
def read
    (env : Environment α)
    (lookup : BrushLookup α)
    (e : Element) : Action α (CanvasStyle α) := do
  let take := takeAttribute env lookup e
  let s ← e.attributes.foldlM take ⟨none, 1, none⟩
  clipToAny s.clip?
  pure s

end CanvasStyle

/- Starts a canvas: saves, reads it, and opens its groups. -/
def CanvasFrame.begin
    (env : Environment α)
    (lookup : BrushLookup α)
    (e : Element) : Action α (CanvasFrame α) := do
  Action.draw Surface.save
  let style ←
    (CanvasStyle.read env lookup e).onError
      (RenderState.draw Surface.restore)
  let opacityGroup := style.opacity != 1
  let maskGroup := style.mask?.isSome
  Action.draw fun s =>
    onlyIf maskGroup Surface.pushGroup
      (onlyIf opacityGroup Surface.pushGroup s)
  pure ⟨style.opacity, style.mask?, opacityGroup, maskGroup, 0⟩

------------------------------------------------------------
-- Content
------------------------------------------------------------

/-
  Starts an element of content. Other elements are passed over,
  their children being looked at, unless the page is strict.
-/
def startContent
    (env : Environment α)
    (lookup : BrushLookup α)
    (e : Element) : Action α (Option (Frame α)) :=
  match e.name with
  | "Canvas" => do
      let f ← CanvasFrame.begin env lookup e
      pure (some (.canvas f))
  | "Path" => do
      let f ← PathFrame.begin env lookup e
      pure (some (.path f))
  | "Glyphs" => do
      let f ← GlyphsFrame.begin env lookup e
      pure (some (.glyphs f))
  | _ =>
      if env.options.strict then Action.fail e.unknown else pure none

omit [Scalar α] in
/- Opens a dictionary and the frame that fills it. -/
def openResources : Action α (Frame α) := do
  Action.change fun st => { st with scope := st.scope.push }
  pure (.resources false)

/- Starts an element on a page or inside a visual brush. -/
def ContentFrame.startChild
    (env : Environment α)
    (lookup : BrushLookup α)
    (f : ContentFrame α)
    (e : Element) :
    Action α (ContentFrame α × Option (Frame α)) :=
  let content := do
    let child? ← startContent env lookup e
    pure (f, child?)
  match e.name with
  | "FixedPage" => pure (f, none)
  | "FixedPage.Resources" => do
      let child ← openResources
      pure ({ f with dictionaries := f.dictionaries + 1 }, some child)
  | "VisualBrush.Visual" =>
      if f.visual?.isSome then pure (f, none) else content
  | "VisualBrush.Transform" =>
      if f.visual?.isSome then pure (f, some (.matrix .identity))
      else content
  | _ => content

/- Starts an element inside a canvas. -/
def CanvasFrame.startChild
    (env : Environment α)
    (lookup : BrushLookup α)
    (f : CanvasFrame α)
    (e : Element) :
    Action α (CanvasFrame α × Option (Frame α)) :=
  match e.name with
  | "Canvas.RenderTransform" => pure (f, some (.matrix .identity))
  | "Canvas.OpacityMask" => pure (f, some (.brush none))
  | "Canvas.Resources" => do
      let child ← openResources
      pure ({ f with dictionaries := f.dictionaries + 1 }, some child)
  | _ => do
      let child? ← startContent env lookup e
      pure (f, child?)

------------------------------------------------------------
-- Dictionaries
------------------------------------------------------------

/-
  Starts an element inside the owner of dictionaries. One that
  has a part of its own takes no entries.
-/
def startResources
    (env : Environment α)
    (remote : Bool)
    (e : Element) : Action α (Bool × Option (Frame α)) :=
  if e.name != "ResourceDictionary" || remote then
    Action.fail e.unknown
  else
    match e.value? "Source" with
    | some source => do
        loadDictionary env source
        pure (true, none)
    | none => pure (false, some (.dictionary none))

------------------------------------------------------------
-- Elements
------------------------------------------------------------

/- What every frame does when an element starts. -/
def startElement
    (env : Environment α)
    (lookup : BrushLookup α) : StartHandler α := fun frame e =>
  match frame with
  | .content f => do
      let (f, child?) ← f.startChild env lookup e
      pure (.content f, child?)
  | .canvas f => do
      let (f, child?) ← f.startChild env lookup e
      pure (.canvas f, child?)
  | .path f => do
      let (f, child?) ← f.startChild env e
      pure (.path f, child?)
  | .geometry f => do
      let (f, child?) ← Action.ofExcept (f.startChild e)
      pure (.geometry f, child?)
  | .brush pattern? => do
      let (pattern?, child?) ← startBrush env pattern? e
      pure (.brush pattern?, child?)
  | .gradient g => do
      let (g, child?) ← g.startChild env e
      pure (.gradient g, child?)
  | .image i => do
      let child? ← Action.ofExcept (ImageBrush.startChild e)
      pure (.image i, child?)
  | .glyphs f => pure (.glyphs f, GlyphsFrame.startChild e)
  | .resources remote => do
      let (remote, child?) ← startResources env remote e
      pure (.resources remote, child?)
  | .matrix m => startStored (.matrix m) e
  | .dictionary current? => startStored (.dictionary current?) e

end FixedPage
