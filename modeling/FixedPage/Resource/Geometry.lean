import FixedPage.Markup.Element
import FixedPage.Markup.Reader
import FixedPage.Values

/-
  This file turns a stored geometry into path data, so that an
  attribute can refer to it. Figures given as path data are kept
  as they are; figures given as elements are written out as
  commands. The fill rule that is not the usual one goes first.

  Main declarations:
    * `Geometry.Writer`
    * `Geometry.Writer.step`
    * `Geometry.pathData`
-/

namespace FixedPage.Geometry

open Markup

variable {α : Type} [Scalar α]

------------------------------------------------------------
-- Commands
------------------------------------------------------------

/- Text of a point. -/
def pointText
    (p : Point α) : String :=
  Scalar.text p.x ++ "," ++ Scalar.text p.y

/- Text of a command and its points. -/
def commandText
    (letter : String)
    (points : List (Point α)) : String :=
  " " ++ letter ++ String.join (points.map fun p => " " ++ pointText p)

/- Text of a flag. -/
def flagText
    (flag : Bool) : String :=
  if flag then "1" else "0"

/- Path data of an arc. -/
def arcText
    (e : Element)
    (target size : List (Point α)) : String :=
  match target, size with
  | p :: _, s :: _ =>
      let rotation := (e.value? "RotationAngle").getD "0"
      let large := e.value? "IsLargeArc" == some "true"
      let sweep := e.value? "SweepDirection" == some "Clockwise"
      " A " ++ pointText s ++ " " ++ rotation ++ " "
        ++ flagText large ++ " " ++ flagText sweep ++ " "
        ++ pointText p
  | _, _ => ""

/- Path data of a segment through the points of an attribute. -/
def polyText
    (α : Type)
    [Scalar α]
    (letter : String)
    (e : Element) : Except Error String := do
  let points : List (Point α) ← e.readRequired "Points" Value.points?
  pure (commandText letter points)

/- Path data of a segment; other elements have none. -/
def segmentText
    (α : Type)
    [Scalar α]
    (e : Element) : Except Error String :=
  match e.name with
  | "PolyLineSegment" => polyText α "L" e
  | "PolyBezierSegment" => polyText α "C" e
  | "PolyQuadraticBezierSegment" => polyText α "Q" e
  | "ArcSegment" => do
      let target : List (Point α) ←
        e.readRequired "Point" Value.points?
      let size ← e.readRequired "Size" Value.points?
      pure (arcText e target size)
  | _ => .ok ""

------------------------------------------------------------
-- Writer
------------------------------------------------------------

/-
  The path data so far, the number of open elements, and
  whether the figure under way has to be closed.
-/
structure Writer where
  data : String
  depth : Nat
  closing : Bool

namespace Writer

/- The writer before the first event. -/
def initial : Writer :=
  ⟨"", 0, false⟩

/- Starts the geometry element. -/
def startGeometry
    (e : Element)
    (w : Writer) : Writer :=
  let rule := (e.value? "FillRule").map FillRule.ofName
  let lead := if rule == some .nonZero then "F1 " else ""
  let figures := (e.value? "Figures").getD ""
  { w with data := w.data ++ lead ++ figures }

/- Starts a figure. -/
def startFigure
    (α : Type)
    [Scalar α]
    (e : Element)
    (w : Writer) : Except Error Writer := do
  let p : Point α ← e.readRequired "StartPoint" Value.point?
  let closing ←
    match e.value? "IsClosed" with
    | some value => e.read "IsClosed" Value.boolean? value
    | none => pure false
  let gap :=
    if w.data.isEmpty || w.data.toList.getLast? == some ' ' then ""
    else " "
  pure { w with
    data := w.data ++ gap ++ "M " ++ pointText p
    closing := closing }

/- Starts an element at the depth reached. -/
def startElement
    (α : Type)
    [Scalar α]
    (e : Element)
    (w : Writer) : Except Error Writer :=
  if w.depth == 1 then .ok w
  else if w.depth == 2 then
    if e.name == "PathGeometry" then .ok (w.startGeometry e)
    else .error e.unknown
  else if e.name == "PathFigure" then w.startFigure α e
  else do
    let text ← segmentText α e
    pure { w with data := w.data ++ text }

/- Ends an element. -/
def endElement
    (name : String)
    (w : Writer) : Writer :=
  let w := { w with depth := w.depth - 1 }
  if name == "PathFigure" && w.closing then
    { w with data := w.data ++ " Z", closing := false }
  else w

/- Takes one event. -/
def step
    (α : Type)
    [Scalar α]
    (w : Writer) :
    Location × Event → Except Error Writer
| (place, .startTag name attributes) =>
    { w with depth := w.depth + 1 }.startElement α
      ⟨place, name, attributes⟩
| (_, .endTag name) => .ok (w.endElement name)
| (_, .text _) => .ok w

/- Takes the events of a part. -/
def run
    (α : Type)
    [Scalar α]
    (w : Writer) :
    List Item → Except Error Writer
| [] => .ok w
| .error fault :: _ => .error fault
| .ok item :: rest =>
    match w.step α item with
    | .ok next => next.run α rest
    | .error fault => .error fault

end Writer

/- Path data of a stored geometry that a part refers to. -/
def pathData
    (α : Type)
    [Scalar α]
    (source markup : String) : Except Error String := do
  let written ← Writer.initial.run α (readText source markup)
  pure (String.ofList (Text.trimEnd written.data.toList))

end FixedPage.Geometry
