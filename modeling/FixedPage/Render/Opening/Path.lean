import FixedPage.Render.Reference

/-
  This file defines how paths, their geometries and the segments
  of their figures start.

  Main declarations:
    * `PathFrame.begin`
    * `PathFrame.startChild`
    * `GeometryFrame.startChild`
    * `PathBuilder.addPoints?`
-/

namespace FixedPage

open Markup

variable {α : Type} [Scalar α]

------------------------------------------------------------
-- Attributes
------------------------------------------------------------

/- Takes an attribute of a stroke style, if it is one. -/
def StrokeStyle.takeAttribute?
    (e : Element)
    (s : StrokeStyle α)
    (a : Attribute) : Option (Except Error (StrokeStyle α)) :=
  match a.name with
  | "StrokeThickness" => some do
      let width ← e.read a.name Value.number? a.value
      pure { s with width := width }
  | "StrokeDashArray" => some do
      let dash ← e.read a.name Value.dashes? a.value
      pure { s with dash := dash }
  | "StrokeDashOffset" => some do
      let offset ← e.read a.name Value.number? a.value
      pure { s with dashOffset := offset }
  | "StrokeStartLineCap"
  | "StrokeEndLineCap" =>
      some (.ok { s with cap := LineCap.ofName a.value })
  | "StrokeLineJoin" =>
      some (.ok { s with join := LineJoin.ofName a.value })
  | "StrokeMiterLimit" => some do
      let limit ← e.read a.name Value.number? a.value
      pure { s with miterLimit := limit }
  | _ => none

/- Takes an attribute of a path; unknown ones are passed over. -/
def PathState.takeAttribute
    (env : Environment α)
    (lookup : BrushLookup α)
    (e : Element)
    (state : PathState α)
    (a : Attribute) : Action α (PathState α) :=
  match a.name with
  | "Data" => do
      let data ← geometryValue env a.value
      pure { state with data? := some data }
  | "Clip" => do
      let data ← geometryValue env a.value
      pure { state with clip? := some data }
  | "RenderTransform" => do
      let matrix ← transformValue env e a.name a.value
      Action.draw (Surface.transform matrix)
      pure state
  | "Fill" => do
      let pattern? ← brushValue env lookup e a.name a.value
      pure { state with fill? := pattern? }
  | "Stroke" => do
      let pattern? ← brushValue env lookup e a.name a.value
      pure { state with stroke? := pattern? }
  | "OpacityMask" => do
      let pattern? ← brushValue env lookup e a.name a.value
      pure { state with mask? := pattern? }
  | "Opacity" => do
      let opacity ←
        Action.ofExcept (e.read a.name Value.number? a.value)
      pure { state with opacity := opacity }
  | _ =>
      match state.strokeStyle.takeAttribute? e a with
      | none => pure state
      | some style => do
          let style ← Action.ofExcept style
          pure { state with strokeStyle := style }

------------------------------------------------------------
-- Paths
------------------------------------------------------------

namespace PathFrame

/- Starts a path: saves, reads its attributes, opens its group. -/
def begin
    (env : Environment α)
    (lookup : BrushLookup α)
    (e : Element) : Action α (PathFrame α) := do
  Action.draw Surface.save
  let take := PathState.takeAttribute env lookup e
  let state ←
    (e.attributes.foldlM take .initial).onError
      (RenderState.draw Surface.restore)
  let opacityGroup := state.opacity != 1
  Action.draw (onlyIf opacityGroup Surface.pushGroup)
  pure ⟨state, false, opacityGroup⟩

omit [Scalar α] in
/-
  Takes the geometry of a clip. Only figures given as path data
  can be used.
-/
def takeClip
    (f : PathFrame α)
    (e : Element) : PathFrame α :=
  match e.value? "Figures" with
  | none => f
  | some figures =>
      let rule := (e.value? "FillRule").map FillRule.ofName
      let lead := if rule == some .nonZero then "F1 " else ""
      { f with
        state := { f.state with clip? := some (lead ++ figures) } }

/- Takes an attribute of the geometry of a path. -/
def takeGeometryAttribute
    (env : Environment α)
    (e : Element)
    (f : PathFrame α)
    (a : Attribute) : Action α (PathFrame α) :=
  match a.name with
  | "FillRule" =>
      let rule := FillRule.ofName a.value
      pure { f with state := { f.state with fillRule := rule } }
  | "Transform" => do
      let matrix ← transformValue env e a.name a.value
      Action.draw (Surface.transform matrix)
      pure f
  | _ => pure f

omit [Scalar α] in
/- Value of the last attribute with a name. -/
def lastValue?
    (e : Element)
    (name : String) : Option String :=
  (e.attributes.findRev? (·.name == name)).map Attribute.value

/-
  Starts the geometry of a path. Figures given as path data are
  drawn when the path ends. Figures given as elements are drawn
  one by one, so the clip has to be in place before them.
-/
def startGeometry
    (env : Environment α)
    (f : PathFrame α)
    (e : Element) :
    Action α (PathFrame α × Option (Frame α)) := do
  let f ← e.attributes.foldlM (takeGeometryAttribute env e) f
  match lastValue? e "Figures" with
  | some figures =>
      pure
        ({ f with state := { f.state with data? := some figures } },
          none)
  | none => do
      Action.draw (Surface.record (.setFillRule f.state.fillRule))
      clipToAny f.state.clip?
      let state := { f.state with clip? := none }
      pure ({ f with state := .initial },
        some (.geometry ⟨state, .empty⟩))

/- Starts an element inside a path. -/
def startChild
    (env : Environment α)
    (f : PathFrame α)
    (e : Element) :
    Action α (PathFrame α × Option (Frame α)) :=
  match e.name with
  | "Path.Fill"
  | "Path.Stroke"
  | "Path.OpacityMask" => pure (f, some (.brush none))
  | "Path.RenderTransform" => pure (f, some (.matrix .identity))
  | "Path.Clip" => pure ({ f with inClip := true }, none)
  | "PathGeometry" =>
      if f.inClip then pure (f.takeClip e, none)
      else f.startGeometry env e
  | _ => pure (f, none)

end PathFrame

------------------------------------------------------------
-- Figures
------------------------------------------------------------

namespace PathBuilder

/- The point two thirds of the way from `p` to `q`. -/
def twoThirds
    (p q : Point α) : Point α :=
  let part : α := Nat.cast 2 / Nat.cast 3
  ⟨p.x + part * (q.x - p.x), p.y + part * (q.y - p.y)⟩

/- Adds a quadratic curve as the cubic curve of the same shape. -/
def quadTo
    (q p : Point α)
    (b : PathBuilder α) : PathBuilder α :=
  let c := b.currentPoint?.getD .origin
  b.push (.curveTo (twoThirds c q) (twoThirds p q) p)

/- Adds lines through some points. -/
def addLines
    (b : PathBuilder α) :
    List (Point α) → PathBuilder α
| [] => b
| p :: rest => addLines (b.push (.lineTo p)) rest

/-
  Adds curves through groups of three points; an incomplete
  group is refused.
-/
def addCubics?
    (b : PathBuilder α) :
    List (Point α) → Option (PathBuilder α)
| [] => some b
| p₁ :: p₂ :: p₃ :: rest =>
    addCubics? (b.push (.curveTo p₁ p₂ p₃)) rest
| _ => none

/-
  Adds quadratic curves through pairs of points; an incomplete
  pair is refused.
-/
def addQuadratics?
    (b : PathBuilder α) :
    List (Point α) → Option (PathBuilder α)
| [] => some b
| q :: p :: rest => addQuadratics? (b.quadTo q p) rest
| _ => none

/- Adds the points of a segment element. -/
def addPoints?
    (element : String)
    (points : List (Point α))
    (b : PathBuilder α) : Option (PathBuilder α) :=
  match element with
  | "PolyBezierSegment" => b.addCubics? points
  | "PolyQuadraticBezierSegment" => b.addQuadratics? points
  | _ => some (b.addLines points)

end PathBuilder

namespace GeometryFrame

omit [Scalar α] in
/- Takes an attribute of a figure. -/
def takeFigureAttribute
    (e : Element)
    (state : PathState α)
    (a : Attribute) : Except Error (PathState α) :=
  match a.name with
  | "IsClosed" => do
      let flag ← e.read a.name Value.boolean? a.value
      pure { state with isClosed := flag }
  | "IsFilled" => do
      let flag ← e.read a.name Value.boolean? a.value
      pure { state with isFilled := flag }
  | _ => .ok state

/- Starts a figure at its first point. -/
def startFigure
    (f : GeometryFrame α)
    (e : Element) : Except Error (GeometryFrame α) := do
  let start ← e.readRequired "StartPoint" Value.point?
  let state := { f.state with isClosed := false, isFilled := true }
  let state ← e.attributes.foldlM (takeFigureAttribute e) state
  pure ⟨state, PathBuilder.empty.push (.moveTo start)⟩

/- Adds a segment, unless it is not to be stroked. -/
def addSegment
    (f : GeometryFrame α)
    (e : Element) : Except Error (GeometryFrame α) := do
  let value ← e.required "Points"
  let points : List (Point α) ← e.read "Points" Value.points? value
  let stroked ←
    match e.value? "IsStroked" with
    | some flag => e.read "IsStroked" Value.boolean? flag
    | none => pure true
  if stroked then
    match f.figure.addPoints? e.name points with
    | some figure => pure { f with figure := figure }
    | none => .error (e.invalid "Points" value)
  else pure f

/- Starts an element inside a geometry; arcs are passed over. -/
def startChild
    (f : GeometryFrame α)
    (e : Element) :
    Except Error (GeometryFrame α × Option (Frame α)) :=
  match e.name with
  | "PathGeometry.Transform" => .ok (f, some (.matrix .identity))
  | "PathFigure" => (f.startFigure e).map (·, none)
  | "PolyLineSegment"
  | "PolyBezierSegment"
  | "PolyQuadraticBezierSegment" => (f.addSegment e).map (·, none)
  | _ => .ok (f, none)

end GeometryFrame

end FixedPage
