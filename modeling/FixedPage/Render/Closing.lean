import FixedPage.Render.Frame
import FixedPage.Render.State

/-
  This file defines how elements end: what a frame does with the
  product of a child, how it is finished into a product of its
  own, and how it is given up after an error.

  Main declarations:
    * `paintPath`
    * `GradientBrush.pattern?`
    * `tileMatrix?`
    * `Frame.endChild`
    * `Frame.finish`
    * `Frame.abort`
-/

namespace FixedPage

variable {α : Type} [Scalar α]

------------------------------------------------------------
-- Groups
------------------------------------------------------------

omit [Scalar α] in
/- Paints the innermost group through a mask, if there is one. -/
def maskGroup
    (mask? : Option (Pattern α))
    (s : Surface α) : Surface α :=
  let s := s.popGroupToSource
  match mask? with
  | some mask => s.record (.mask mask)
  | none => s

omit [Scalar α] in
/- Paints the innermost group with an opacity. -/
def paintGroup
    (opacity : α)
    (s : Surface α) : Surface α :=
  s.popGroupToSource.record (.paintWithAlpha opacity)

omit [Scalar α] in
/- Performs a step if its condition holds. -/
def onlyIf
    {β : Type}
    (condition : Bool)
    (f : β → β)
    (x : β) : β :=
  if condition then f x else x

omit [Scalar α] in
/- Paints the groups of an element, the inner one first. -/
def paintGroups
    (inMask inOpacity : Bool)
    (mask? : Option (Pattern α))
    (opacity : α)
    (s : Surface α) : Surface α :=
  onlyIf inOpacity (paintGroup opacity)
    (onlyIf inMask (maskGroup mask?) s)

omit [Scalar α] in
/- Drops the groups of an element, the inner one first. -/
def dropGroups
    (inMask inOpacity : Bool)
    (s : Surface α) : Surface α :=
  onlyIf inOpacity Surface.closeGroup
    (onlyIf inMask Surface.closeGroup s)

------------------------------------------------------------
-- Paths
------------------------------------------------------------

/- The box that a masked path is clipped to. -/
def PathState.maskExtents?
    (state : PathState α)
    (path : PathBuilder α) : Option (Rectangle α) :=
  path.extents?.map fun extents =>
    match state.stroke? with
    | some _ =>
        extents.inflated (state.strokeStyle.width / Nat.cast 2)
    | none => extents

/- Draws a path into the group of its mask. -/
def beginMask
    (state : PathState α)
    (path : PathBuilder α)
    (s : Surface α) : Surface α :=
  match state.mask? with
  | none => s
  | some _ =>
      let s :=
        match state.maskExtents? path with
        | some extents => (s.newPath.rectangle extents).clip
        | none => s
      s.pushGroup

omit [Scalar α] in
/- Paints the group of a mask. -/
def endMask
    (state : PathState α)
    (s : Surface α) : Surface α :=
  match state.mask? with
  | none => s
  | some mask => maskGroup (some mask) s

omit [Scalar α] in
/- Fills and strokes the current path. -/
def paintCurrent
    (state : PathState α)
    (filled : Bool)
    (s : Surface α) : Surface α :=
  let fill? := if filled then state.fill? else none
  match fill?, state.stroke? with
  | some fill, some stroke =>
      (((s.setSource fill).record (.fill true)).setSource
        stroke).record (.stroke state.strokeStyle)
  | some fill, none => (s.setSource fill).record (.fill false)
  | none, some stroke =>
      (s.setSource stroke).record (.stroke state.strokeStyle)
  | none, none => s.newPath

/- Draws a path and paints it. -/
def paintPath
    (path : PathBuilder α)
    (state : PathState α)
    (filled : Bool)
    (s : Surface α) : Surface α :=
  let s := (beginMask state path s).newPath
  let s := s.takeAll path.steps
  endMask state (paintCurrent state filled s)

/- Draws a path given by its data. -/
def paintData
    (state : PathState α)
    (data : String) : Action α Unit := do
  Action.draw (Surface.record (.setFillRule state.fillRule))
  clipToAny state.clip?
  let trace : PathData.Trace α := PathData.trace data
  match trace.fault? with
  | some fault => Action.fail (.pathData fault)
  | none =>
      Action.draw
        (paintPath (PathBuilder.empty.takeAll trace.steps) state true)

/- Draws the path of a frame and closes what the frame opened. -/
def PathFrame.finish
    (f : PathFrame α) : Action α (Product α) := do
  match f.state.data? with
  | some data => paintData f.state data
  | none => pure ()
  Action.draw fun s =>
    (onlyIf f.opacityGroup (paintGroup f.state.opacity) s).restore
  pure .none

/- Draws the figure that has ended. -/
def GeometryFrame.endFigure
    (f : GeometryFrame α)
    (s : Surface α) : GeometryFrame α × Surface α :=
  let figure :=
    if f.state.isClosed then f.figure.push .close else f.figure
  ({ f with figure := .empty },
    paintPath figure f.state f.state.isFilled s)

------------------------------------------------------------
-- Brushes
------------------------------------------------------------

/- Multiplies the opacity of every stop of a gradient. -/
def GradientBrush.paintedStops
    (g : GradientBrush α) : List (GradientStop α) :=
  g.stops.map fun stop =>
    { stop with color := stop.color.withOpacity g.opacity }

/-
  Pattern of a gradient along a line. There is none when its
  transformation cannot be undone.
-/
def GradientBrush.linearPattern?
    (g : GradientBrush α)
    (start target : Point α) : Option (Pattern α) :=
  g.matrix.inverse?.map fun inverse =>
    ⟨.linear start target g.paintedStops, g.spread, inverse⟩

/- Stretches circles around a center into ellipses. -/
def ellipseMatrix
    (center : Point α)
    (ratio : α) : Matrix α :=
  ⟨ratio, 0, 0, 1, center.x - center.x * ratio, 0⟩

/-
  Pattern of a gradient between ellipses: circles of the
  vertical radius that the matrix stretches. There is none when
  a radius is zero or the transformation cannot be undone.
-/
def GradientBrush.radialPattern?
    (g : GradientBrush α)
    (origin center : Point α)
    (radiusX radiusY : α) : Option (Pattern α) :=
  if radiusX == 0 || radiusY == 0 then none
  else
    let ratio := radiusX / radiusY
    ((ellipseMatrix center ratio).mul g.matrix).inverse?.map
      fun inverse =>
        let focus : Point α :=
          ⟨center.x + (origin.x - center.x) / ratio, origin.y⟩
        ⟨.radial focus 0 center radiusY g.paintedStops,
          g.spread, inverse⟩

/- Pattern of a gradient. -/
def GradientBrush.pattern?
    (g : GradientBrush α) : Option (Pattern α) :=
  match g.shape with
  | .linear start target => g.linearPattern? start target
  | .radial origin center radiusX radiusY =>
      g.radialPattern? origin center radiusX radiusY

/-
  The matrix that takes the page to a tile which is stretched
  over a viewport and then transformed.
-/
def tileMatrix?
    (viewport source : Rectangle α)
    (transform : Matrix α) : Option (Matrix α) :=
  if source.width == 0 || source.height == 0 then none
  else
    let tile : Matrix α :=
      ⟨viewport.width / source.width, 0, 0,
        viewport.height / source.height, viewport.x, viewport.y⟩
    (tile.mul transform).inverse?

/- The part of an image that a viewbox shows, in pixels. -/
def ImageBrush.sourceIn
    (i : ImageBrush α)
    (image : Image α) : Rectangle α :=
  i.viewbox.scaled
    (image.resolutionX / Image.defaultResolution)
    (image.resolutionY / Image.defaultResolution)

/- Pattern of a loaded image at full opacity. -/
def ImageBrush.pattern?
    (i : ImageBrush α)
    (image : Image α) : Option (Pattern α) :=
  let source := i.sourceIn image
  (tileMatrix? i.viewport source i.matrix).map fun matrix =>
    ⟨.image image source, i.extend, matrix⟩

omit [Scalar α] in
/- Draws a pattern with an opacity into a group of its own. -/
def groupWithOpacity
    (pattern : Pattern α)
    (opacity : α)
    (s : Surface α) : Pattern α × Surface α :=
  ((s.pushGroup.setSource pattern).record
    (.paintWithAlpha opacity)).popGroup

/- Pattern of an image; none when it cannot be loaded. -/
def ImageBrush.resolve
    (env : Environment α)
    (i : ImageBrush α)
    (st : RenderState α) :
    Option (Pattern α) × RenderState α :=
  let (loaded, images) := st.images.getOrLoad env.loadImage i.source
  let st := { st with images := images }
  match loaded with
  | .error _ => (none, st)
  | .ok image =>
      match i.pattern? image with
      | none => (none, st)
      | some pattern =>
          if i.opacity == 1 then (some pattern, st)
          else
            let (group, surface) :=
              groupWithOpacity pattern i.opacity st.surface
            (some group, { st with surface := surface })

/- Pattern of a brush. -/
def Brush.resolve
    (env : Environment α)
    (st : RenderState α) :
    Brush α → Option (Pattern α) × RenderState α
| .gradient g => (g.pattern?, st)
| .image i => i.resolve env st

/- Places the group of a visual brush on its viewport. -/
def VisualBrush.place
    (v : VisualBrush α)
    (group : Pattern α) : Pattern α :=
  let group := { group with extend := v.extend }
  let tile : Rectangle α := ⟨0, 0, v.width, v.height⟩
  match tileMatrix? v.viewport tile v.transform with
  | some inverse =>
      { group with matrix := inverse.mul group.matrix }
  | none => group

/- Closes the group of a visual brush. -/
def VisualBrush.resolve
    (v : VisualBrush α)
    (s : Surface α) : Pattern α × Surface α :=
  let (group, s) := s.popGroup
  (v.place group, s.restore)

------------------------------------------------------------
-- Glyph runs
------------------------------------------------------------

/- Shear of simulated italics, as a part of the em size. -/
def italicShear : α :=
  Nat.cast 342 / Nat.cast 1000

/- The matrix that takes em space to the page. -/
def GlyphRun.fontMatrix
    (run : GlyphRun α) : Matrix α :=
  let upright : Matrix α := .scaling run.emSize run.emSize
  let slanted :=
    if run.isItalic then
      { upright with xy := -italicShear * run.emSize }
    else upright
  if run.isSideways then
    (Matrix.rotation (-Scalar.halfPi)).mul slanted
  else slanted

omit [Scalar α] in
/- The text of a run, without the braces that escape it. -/
def GlyphRun.shownText
    (run : GlyphRun α) : String :=
  let text := run.text?.getD ""
  match Text.afterPrefix ['\x7b', '\x7d'] text.toList with
  | some rest => String.ofList rest
  | none => text

omit [Scalar α] in
/- Where and in which direction a run is laid out. -/
def GlyphRun.placement
    (run : GlyphRun α) : Placement α :=
  ⟨run.origin, run.isRightToLeft, run.isSideways⟩

/- Loads the font of a run. -/
def GlyphRun.loadFont
    (env : Environment α)
    (run : GlyphRun α) : Action α (Font α) :=
  Action.ofEffect fun st =>
    let (loaded, fonts) := st.fonts.getOrLoad env.loadFont run.font
    (loaded, { st with fonts := fonts })

omit [Scalar α] in
/- Draws the glyphs of a run. -/
def GlyphRun.show
    (run : GlyphRun α)
    (matrix : Matrix α)
    (layout : GlyphLayout α)
    (s : Surface α) : Surface α :=
  let s :=
    match run.fill? with
    | some fill => s.setSource fill
    | none => s
  s.record (.showGlyphs matrix layout run.shownText)

/- Draws the run of a frame and closes what the frame opened. -/
def GlyphsFrame.finish
    (env : Environment α)
    (f : GlyphsFrame α) : Action α (Product α) := do
  let font ← f.run.loadFont env
  clipToAny f.run.clip?
  let matrix := f.run.fontMatrix
  match
    layoutGlyphs ⟨font, matrix⟩ f.run.placement f.run.shownText
      f.run.indices? with
  | .error fault => Action.fail (.ofGlyphRun fault)
  | .ok layout =>
      Action.draw fun s =>
        (paintGroups f.maskGroup f.opacityGroup f.run.mask?
          f.run.opacity (f.run.show matrix layout s)).restore
      pure .none

------------------------------------------------------------
-- Children
------------------------------------------------------------

/-
  Takes the first mask of an element whose content goes on in a
  group; later masks are left out.
-/
def takeMask
    (known? : Option (Pattern α))
    (product : Product α) : Option (Pattern α) :=
  match known?, product with
  | none, .pattern (some mask) => some mask
  | _, _ => none

omit [Scalar α] in
/- The product of a child of the page or a visual brush. -/
def ContentFrame.endChild
    (f : ContentFrame α)
    (name : String)
    (product : Product α)
    (st : RenderState α) : ContentFrame α × RenderState α :=
  match name, product with
  | "FixedPage", _ =>
      ({ f with dictionaries := 0 }, st.popDictionaries f.dictionaries)
  | "VisualBrush.Transform", .matrix m =>
      ({ f with
          visual? := f.visual?.map fun v => { v with transform := m } },
        st)
  | _, _ => (f, st)

/- The product of a child of a canvas. -/
def CanvasFrame.endChild
    (f : CanvasFrame α)
    (name : String)
    (product : Product α)
    (st : RenderState α) : CanvasFrame α × RenderState α :=
  match name, product with
  | "Canvas.RenderTransform", .matrix m =>
      (f, st.draw (Surface.transform m))
  | "Canvas.OpacityMask", product =>
      match takeMask f.mask? product with
      | some mask =>
          ({ f with mask? := some mask, maskGroup := true },
            st.draw Surface.pushGroup)
      | none => (f, st)
  | _, _ => (f, st)

/- The product of a child of a path. -/
def PathFrame.endChild
    (f : PathFrame α)
    (name : String)
    (product : Product α)
    (st : RenderState α) : PathFrame α × RenderState α :=
  match name, product with
  | "Path.Fill", .pattern pattern? =>
      ({ f with state := { f.state with fill? := pattern? } }, st)
  | "Path.Stroke", .pattern pattern? =>
      ({ f with state := { f.state with stroke? := pattern? } }, st)
  | "Path.OpacityMask", .pattern pattern? =>
      match f.state.mask? with
      | none =>
          ({ f with state := { f.state with mask? := pattern? } }, st)
      | some _ => (f, st)
  | "Path.RenderTransform", .matrix m =>
      (f, st.draw (Surface.transform m))
  | "PathGeometry", .path state => ({ f with state := state }, st)
  | "Path.Clip", _ => ({ f with inClip := false }, st)
  | _, _ => (f, st)

/- The product of a child of a geometry. -/
def GeometryFrame.endChild
    (f : GeometryFrame α)
    (name : String)
    (product : Product α)
    (st : RenderState α) : GeometryFrame α × RenderState α :=
  match name, product with
  | "PathGeometry.Transform", .matrix m =>
      (f, st.draw (Surface.transform m))
  | "PathFigure", _ =>
      let (f, surface) := f.endFigure st.surface
      (f, { st with surface := surface })
  | _, _ => (f, st)

/- The product of a child of a glyph run. -/
def GlyphsFrame.endChild
    (f : GlyphsFrame α)
    (name : String)
    (product : Product α)
    (st : RenderState α) : GlyphsFrame α × RenderState α :=
  match name, product with
  | "Glyphs.RenderTransform", .matrix m =>
      (f, st.draw (Surface.transform m))
  | "Glyphs.Fill", .pattern pattern? =>
      ({ f with run := { f.run with fill? := pattern? } }, st)
  | "Glyphs.OpacityMask", product =>
      match takeMask f.run.mask? product with
      | some mask =>
          ({ f with
              run := { f.run with mask? := some mask }
              maskGroup := true },
            st.draw Surface.pushGroup)
      | none => (f, st)
  | _, _ => (f, st)

/- The product of the brush of a property. -/
def endBrush
    (env : Environment α)
    (pattern? : Option (Pattern α))
    (product : Product α)
    (st : RenderState α) :
    Option (Pattern α) × RenderState α :=
  match product with
  | .brush b => b.resolve env st
  | .visual v =>
      let (pattern, surface) := v.resolve st.surface
      (some pattern, { st with surface := surface })
  | _ => (pattern?, st)

omit [Scalar α] in
/- The product of a child of a gradient. -/
def GradientBrush.endChild
    (g : GradientBrush α)
    (name : String)
    (product : Product α) : GradientBrush α :=
  match product with
  | .matrix m =>
      if ".Transform".toList.isSuffixOf name.toList then
        { g with matrix := m }
      else g
  | _ => g

omit [Scalar α] in
/- The product of a child of an image brush. -/
def ImageBrush.endChild
    (i : ImageBrush α)
    (name : String)
    (product : Product α) : ImageBrush α :=
  match name, product with
  | "ImageBrush.Transform", .matrix m => { i with matrix := m }
  | _, _ => i

omit [Scalar α] in
/- Ends an element inside a dictionary, storing a closed entry. -/
def endEntry
    (current? : Option ResourceEntry)
    (name : String)
    (st : RenderState α) :
    Option ResourceEntry × RenderState α :=
  match current? with
  | none => (none, st)
  | some entry =>
      match entry.endElement? name with
      | some entry => (some entry, st)
      | none =>
          let (_, scope) := st.scope.set entry.key entry.markup
          (none, { st with scope := scope })

/-
  Lets a frame see the end of an element nested in its owner,
  with the product of the frame that the element owned, if any.
-/
def Frame.endChild
    (env : Environment α)
    (frame : Frame α)
    (name : String)
    (product : Product α)
    (st : RenderState α) : Frame α × RenderState α :=
  match frame with
  | .content f => (f.endChild name product st).map .content id
  | .canvas f => (f.endChild name product st).map .canvas id
  | .path f => (f.endChild name product st).map .path id
  | .geometry f => (f.endChild name product st).map .geometry id
  | .brush pattern? =>
      (endBrush env pattern? product st).map .brush id
  | .gradient g => (.gradient (g.endChild name product), st)
  | .image i => (.image (i.endChild name product), st)
  | .glyphs f => (f.endChild name product st).map .glyphs id
  | .matrix m => (.matrix m, st)
  | .resources remote =>
      (.resources (remote && name != "ResourceDictionary"), st)
  | .dictionary current? =>
      (endEntry current? name st).map .dictionary id

------------------------------------------------------------
-- Ends
------------------------------------------------------------

omit [Scalar α] in
/- Finishes the page or the content of a visual brush. -/
def ContentFrame.finish
    (f : ContentFrame α)
    (st : RenderState α) : Product α × RenderState α :=
  let st := st.popDictionaries f.dictionaries
  match f.visual? with
  | some v => (.visual v, { st with visualDepth := st.visualDepth - 1 })
  | none => (.none, st)

omit [Scalar α] in
/- Gives up the page or the content of a visual brush. -/
def ContentFrame.abort
    (f : ContentFrame α)
    (st : RenderState α) : RenderState α :=
  let st := st.popDictionaries f.dictionaries
  match f.visual? with
  | some _ =>
      { st with
        surface := st.surface.closeGroup.restore
        visualDepth := st.visualDepth - 1 }
  | none => st

omit [Scalar α] in
/- Paints the groups of a canvas and closes it. -/
def CanvasFrame.finish
    (f : CanvasFrame α)
    (st : RenderState α) : RenderState α :=
  ((st.draw
    (paintGroups f.maskGroup f.opacityGroup f.mask? f.opacity)
      ).popDictionaries f.dictionaries).draw Surface.restore

omit [Scalar α] in
/- Gives up a canvas. -/
def CanvasFrame.abort
    (f : CanvasFrame α)
    (st : RenderState α) : RenderState α :=
  ((st.draw (dropGroups f.maskGroup f.opacityGroup)
    ).popDictionaries f.dictionaries).draw Surface.restore

/- Finishes a frame whose owner has ended. -/
def Frame.finish
    (env : Environment α) :
    Frame α → Action α (Product α)
| .content f =>
    Action.ofEffect fun st => (f.finish st).map .ok id
| .canvas f => do
    Action.change f.finish
    pure .none
| .path f => f.finish
| .geometry f => pure (.path f.state)
| .brush pattern? => pure (.pattern pattern?)
| .gradient g => pure (.brush (.gradient g))
| .image i => pure (.brush (.image i))
| .glyphs f => f.finish env
| .matrix m => pure (.matrix m)
| .resources _ => pure .none
| .dictionary _ => pure .none

omit [Scalar α] in
/- Undoes what a frame still holds of the surface and the scope. -/
def Frame.abort
    (frame : Frame α)
    (st : RenderState α) : RenderState α :=
  match frame with
  | .content f => f.abort st
  | .canvas f => f.abort st
  | .path f =>
      st.draw fun s => (dropGroups false f.opacityGroup s).restore
  | .glyphs f =>
      st.draw fun s =>
        (dropGroups f.maskGroup f.opacityGroup s).restore
  | _ => st

end FixedPage
