import FixedPage.Render.Reference

/-
  This file defines how glyph runs and the elements inside them
  start.

  Main declarations:
    * `GlyphsFrame.begin`
    * `GlyphsFrame.startChild`
-/

namespace FixedPage

open Markup

variable {α : Type} [Scalar α]

------------------------------------------------------------
-- Attributes
------------------------------------------------------------

namespace GlyphRun

/- Reads what a glyph run cannot do without. -/
def read
    (env : Environment α)
    (e : Element) : Except Error (GlyphRun α) := do
  let font ← e.required "FontUri"
  let emSize ← e.required "FontRenderingEmSize"
  let originX ← e.required "OriginX"
  let originY ← e.required "OriginY"
  let emSize ← e.read "FontRenderingEmSize" Value.number? emSize
  let originX ← e.read "OriginX" Value.number? originX
  let originY ← e.read "OriginY" Value.number? originY
  pure
    { font := PartName.resolve env.source font
      emSize := emSize
      origin := ⟨originX, originY⟩
      fill? := none
      mask? := none
      text? := none
      indices? := none
      clip? := none
      bidiLevel := 0
      isSideways := false
      isItalic := false
      opacity := 1 }

/- Indices count only when they are not blank. -/
def shownIndices?
    (indices : String) : Option String :=
  if (Text.trim indices.toList).isEmpty then none else some indices

/- Styles that are simulated by a shear. -/
def isItalicStyle
    (style : String) : Bool :=
  style == "ItalicSimulation" || style == "BoldItalicSimulation"

/- Takes an attribute; unknown ones are passed over. -/
def takeAttribute
    (env : Environment α)
    (lookup : BrushLookup α)
    (e : Element)
    (run : GlyphRun α)
    (a : Attribute) : Action α (GlyphRun α) :=
  match a.name with
  | "UnicodeString" => pure { run with text? := some a.value }
  | "Indices" => pure { run with indices? := shownIndices? a.value }
  | "Fill" => do
      let pattern? ← brushValue env lookup e a.name a.value
      pure { run with fill? := pattern? }
  | "OpacityMask" => do
      let pattern? ← brushValue env lookup e a.name a.value
      pure { run with mask? := pattern? }
  | "Clip" => do
      let data ← geometryValue env a.value
      pure { run with clip? := some data }
  | "RenderTransform" => do
      let matrix ← transformValue env e a.name a.value
      Action.draw (Surface.transform matrix)
      pure run
  | "BidiLevel" => do
      let level ←
        Action.ofExcept (e.read a.name Value.integer? a.value)
      pure { run with bidiLevel := level }
  | "IsSideways" => do
      let flag ←
        Action.ofExcept (e.read a.name Value.boolean? a.value)
      pure { run with isSideways := flag }
  | "StyleSimulations" =>
      pure { run with isItalic := isItalicStyle a.value }
  | "Opacity" => do
      let opacity ←
        Action.ofExcept (e.read a.name Value.number? a.value)
      pure { run with opacity := opacity }
  | _ => pure run

end GlyphRun

------------------------------------------------------------
-- Glyph runs
------------------------------------------------------------

namespace GlyphsFrame

/- Starts a glyph run: saves, reads it, and opens its groups. -/
def begin
    (env : Environment α)
    (lookup : BrushLookup α)
    (e : Element) : Action α (GlyphsFrame α) := do
  let run ← Action.ofExcept (GlyphRun.read env e)
  Action.draw Surface.save
  let take := GlyphRun.takeAttribute env lookup e
  let run ←
    (e.attributes.foldlM take run).onError
      (RenderState.draw Surface.restore)
  let opacityGroup := run.opacity != 1
  let maskGroup := run.mask?.isSome
  Action.draw fun s =>
    onlyIf maskGroup Surface.pushGroup
      (onlyIf opacityGroup Surface.pushGroup s)
  pure ⟨run, opacityGroup, maskGroup⟩

/- The frame of an element inside a glyph run, if it has one. -/
def startChild
    (e : Element) : Option (Frame α) :=
  match e.name with
  | "Glyphs.RenderTransform" => some (.matrix .identity)
  | "Glyphs.Fill"
  | "Glyphs.OpacityMask" => some (.brush none)
  | _ => none

end GlyphsFrame

end FixedPage
