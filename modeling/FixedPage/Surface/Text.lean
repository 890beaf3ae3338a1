import FixedPage.Decimal.Significant
import FixedPage.Decimal.Shortest
import FixedPage.Surface.Recording
import FixedPage.Text.Hidden

/-
  This file writes drawing operations as lines of text: the name
  of the operation and its operands, coordinates with two
  decimal places and matrices with three.

  Main declarations:
    * `Operation.text`
-/

namespace FixedPage

open Decimal

------------------------------------------------------------
-- Names
------------------------------------------------------------

/- Name of a fill rule. -/
def FillRule.text : FillRule → String
| .evenOdd => "EvenOdd"
| .nonZero => "NonZero"

/- Name of a line cap. -/
def LineCap.text : LineCap → String
| .butt => "Butt"
| .round => "Round"
| .square => "Square"

/- Name of a line join. -/
def LineJoin.text : LineJoin → String
| .miter => "Miter"
| .bevel => "Bevel"
| .round => "Round"

/- Name of a way to extend a pattern. -/
def Extend.text : Extend → String
| .none => "None"
| .pad => "Pad"
| .repeat => "Repeat"
| .reflect => "Reflect"

/- Number of a layer; the largest word when there is no group. -/
def Layer.number : Layer → Nat
| .group id => id
| .unmatched => Nat.pow 2 64 - 1

------------------------------------------------------------
-- Operands
------------------------------------------------------------

/- Text of a matrix. -/
def Matrix.text
    (m : Matrix Float) : String :=
  let entries := [m.xx, m.yx, m.xy, m.yy, m.x0, m.y0]
  "[" ++ " ".intercalate (entries.map (fixed 3)) ++ "]"

/- Text of a pair of coordinates. -/
def Point.text
    (separator : String)
    (p : Point Float) : String :=
  fixed 2 p.x ++ separator ++ fixed 2 p.y

/- Text of the number of stops of a gradient. -/
def stopsText
    (stops : List (GradientStop Float)) : String :=
  ", " ++ toString stops.length ++ " stops)"

/- Text of a color. -/
def Color.text
    (c : Color Float) : String :=
  let channels := [c.red, c.green, c.blue, c.alpha]
  "solid(" ++ ", ".intercalate (channels.map (fixed 3)) ++ ")"

/- Text of what a pattern shows. -/
def PatternKind.text : PatternKind Float → String
| .solid color => color.text
| .linear start target stops =>
    "linear(" ++ start.text "," ++ " -> " ++ target.text ","
      ++ stopsText stops
| .radial focus _ center radius stops =>
    "radial(" ++ focus.text "," ++ " -> " ++ center.text ","
      ++ " r=" ++ fixed 2 radius ++ stopsText stops
| .image picture part =>
    "image(" ++ toString picture.width ++ "x"
      ++ toString picture.height
      ++ ", source " ++ fixed 1 part.x ++ "," ++ fixed 1 part.y
      ++ " " ++ fixed 1 part.width ++ "x" ++ fixed 1 part.height
      ++ ")"
| .layer closed => "layer#" ++ toString closed.number

/- Text of a pattern. -/
def Pattern.text
    (p : Pattern Float) : String :=
  p.kind.text ++ " extend=" ++ p.extend.text
    ++ " matrix=" ++ p.matrix.text

/- Text of a stroke style. -/
def StrokeStyle.text
    (s : StrokeStyle Float) : String :=
  "width=" ++ fixed 2 s.width ++ " cap=" ++ s.cap.text
    ++ " join=" ++ s.join.text
    ++ " dashes=[" ++ ", ".intercalate (s.dash.map listed) ++ "]"

/- Text of a segment. -/
def Segment.text : Segment Float → String
| .moveTo p => "move_to " ++ p.text " "
| .lineTo p => "line_to " ++ p.text " "
| .curveTo p₁ p₂ p₃ =>
    "curve_to " ++ " ".intercalate ([p₁, p₂, p₃].map (Point.text " "))
| .close => "close_path"

------------------------------------------------------------
-- Operations
------------------------------------------------------------

/- Text of an operation. -/
def Operation.text : Operation Float → String
| .save => "save"
| .restore => "restore"
| .transform matrix => "transform " ++ matrix.text
| .newPath => "new_path"
| .segment piece => piece.text
| .setFillRule rule => "set_fill_rule " ++ rule.text
| .clip => "clip"
| .setSource pattern => "set_source " ++ pattern.text
| .fill preserve =>
    "fill preserve=" ++ if preserve then "true" else "false"
| .stroke style => "stroke " ++ style.text
| .paintWithAlpha alpha => "paint_with_alpha " ++ fixed 3 alpha
| .pushGroup => "push_group"
| .popGroup layer => "pop_group layer#" ++ toString layer.number
| .mask pattern => "mask " ++ pattern.text
| .showGlyphs matrix layout text =>
    "show_glyphs " ++ toString layout.glyphs.length ++ " glyphs "
      ++ Text.quoted text ++ " font=" ++ matrix.text

end FixedPage
