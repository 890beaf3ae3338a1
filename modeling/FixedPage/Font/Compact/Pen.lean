import FixedPage.Font.Outline

/-
  This file draws the outlines of compact fonts. Numbers are put
  on a stack, and an operator draws with all of them: straight
  lines and curves, each given by distances from where the pen
  is.

  Main declarations:
    * `CompactPen`
    * `CompactPen.draw?`
-/

namespace FixedPage

/-
  Where the pen is, whether it has been put down, the space that
  was drawn on, and the numbers for the next operator.
-/
structure CompactPen where
  x : Float32
  y : Float32
  isDown : Bool
  extent? : Option OutlineExtent
  stack : List Float32

namespace CompactPen

/- The pen before an outline. -/
def start : CompactPen :=
  ⟨0, 0, false, none, []⟩

/- Puts a number on the stack unless it is full. -/
def push?
    (most : Nat)
    (n : Float32)
    (pen : CompactPen) : Option CompactPen :=
  if pen.stack.length < most then
    some { pen with stack := pen.stack ++ [n] }
  else none

/- Takes the last number off the stack. -/
def pop?
    (pen : CompactPen) : Option (Float32 × CompactPen) :=
  pen.stack.getLast?.map fun n =>
    (n, { pen with stack := pen.stack.dropLast })

/- Takes all numbers off the stack. -/
def clear
    (pen : CompactPen) : CompactPen :=
  { pen with stack := [] }

------------------------------------------------------------
-- Lines and curves
------------------------------------------------------------

/- Adds points to what was drawn. -/
def reach
    (points : List OutlinePoint)
    (pen : CompactPen) : CompactPen :=
  { pen with extent? := OutlineExtent.cover pen.extent? points }

/- Moves the pen; lines and moves reach the same space. -/
def lineBy
    (dx dy : Float32)
    (pen : CompactPen) : CompactPen :=
  let x := pen.x + dx
  let y := pen.y + dy
  { pen.reach [⟨x, y⟩] with x, y }

/- Puts the pen down at a distance. -/
def moveBy
    (dx dy : Float32)
    (pen : CompactPen) : CompactPen :=
  { (pen.lineBy dx dy).clear with isDown := true }

/- Draws a curve that is bent by two points to a third one. -/
def curveTo
    (p₁ p₂ p : OutlinePoint)
    (pen : CompactPen) : CompactPen :=
  { pen.reach [p₁, p₂, p] with x := p.x, y := p.y }

/- Draws a curve, each point given by its distance. -/
def curveBy
    (dx₁ dy₁ dx₂ dy₂ dx₃ dy₃ : Float32)
    (pen : CompactPen) : CompactPen :=
  let x₁ := pen.x + dx₁
  let y₁ := pen.y + dy₁
  let x₂ := x₁ + dx₂
  let y₂ := y₁ + dy₂
  pen.curveTo ⟨x₁, y₁⟩ ⟨x₂, y₂⟩ ⟨x₂ + dx₃, y₂ + dy₃⟩

/- Draws a curve that starts along an axis and ends along the other. -/
def curveTurning
    (horizontal : Bool)
    (d₁ dx₂ dy₂ d₃ d₄ : Float32)
    (pen : CompactPen) : CompactPen :=
  if horizontal then pen.curveBy d₁ 0 dx₂ dy₂ d₄ d₃
  else pen.curveBy 0 d₁ dx₂ dy₂ d₃ d₄

------------------------------------------------------------
-- Rows of lines and curves
------------------------------------------------------------

/- Draws lines, each given by two distances. -/
def lines? :
    List Float32 → CompactPen → Option CompactPen
| [], pen => some pen
| dx :: dy :: rest, pen => lines? rest (pen.lineBy dx dy)
| _, _ => none

/- Draws lines that follow the axes in turn. -/
def axisLines :
    Bool → List Float32 → CompactPen → CompactPen
| _, [], pen => pen
| horizontal, d :: rest, pen =>
    axisLines (!horizontal) rest
      (if horizontal then pen.lineBy d 0 else pen.lineBy 0 d)

/- Draws curves, each given by six distances. -/
def curves? :
    List Float32 → CompactPen → Option CompactPen
| [], pen => some pen
| dx₁ :: dy₁ :: dx₂ :: dy₂ :: dx₃ :: dy₃ :: rest, pen =>
    curves? rest (pen.curveBy dx₁ dy₁ dx₂ dy₂ dx₃ dy₃)
| _, _ => none

/- Draws curves that start and end along the same axis. -/
def levelCurves?
    (horizontal : Bool) :
    List Float32 → CompactPen → Option CompactPen
| [], pen => some pen
| d₁ :: dx₂ :: dy₂ :: d₃ :: rest, pen =>
    levelCurves? horizontal rest
      (if horizontal then pen.curveBy d₁ 0 dx₂ dy₂ d₃ 0
      else pen.curveBy 0 d₁ dx₂ dy₂ 0 d₃)
| _, _ => none

/-
  Draws curves that start along the axes in turn. A number that
  is left at the end turns the end of the last one.
-/
def turningCurves? :
    Bool → List Float32 → CompactPen → Option CompactPen
| _, [], pen => some pen
| horizontal, [d₁, dx₂, dy₂, d₃, d₄], pen =>
    some (pen.curveTurning horizontal d₁ dx₂ dy₂ d₃ d₄)
| horizontal, d₁ :: dx₂ :: dy₂ :: d₃ :: rest, pen =>
    turningCurves? (!horizontal) rest
      (pen.curveTurning horizontal d₁ dx₂ dy₂ d₃ 0)
| _, _, _ => none

------------------------------------------------------------
-- Shallow curves
------------------------------------------------------------

/-
  Draws two curves that end where they started along one axis.
  That is the y axis if the last point before the end is further
  away along the x axis.
-/
def flexBack
    (dx₁ dy₁ dx₂ dy₂ dx₃ dy₃ dx₄ dy₄ dx₅ dy₅ d₆ : Float32)
    (pen : CompactPen) : CompactPen :=
  let half := pen.curveBy dx₁ dy₁ dx₂ dy₂ dx₃ dy₃
  let x₄ := half.x + dx₄
  let y₄ := half.y + dy₄
  let x₅ := x₄ + dx₅
  let y₅ := y₄ + dy₅
  let p : OutlinePoint :=
    if (y₅ - pen.y).abs < (x₅ - pen.x).abs then ⟨x₅ + d₆, pen.y⟩
    else ⟨pen.x, y₅ + d₆⟩
  half.curveTo ⟨x₄, y₄⟩ ⟨x₅, y₅⟩ p

/-
  Draws two curves that meet on a level line and end on the level
  they started from.
-/
def flexLevel
    (dx₁ dy₁ dx₂ dy₂ dx₃ dx₄ dx₅ dy₅ dx₆ : Float32)
    (pen : CompactPen) : CompactPen :=
  let half := pen.curveBy dx₁ dy₁ dx₂ dy₂ dx₃ 0
  let x₄ := half.x + dx₄
  let x₅ := x₄ + dx₅
  half.curveTo ⟨x₄, half.y⟩ ⟨x₅, half.y + dy₅⟩ ⟨x₅ + dx₆, pen.y⟩

/-
  Draws two curves like `flexLevel` whose outer points also lie
  on the level they started from.
-/
def flexFlat
    (dx₁ dx₂ dy₂ dx₃ dx₄ dx₅ dx₆ : Float32)
    (pen : CompactPen) : CompactPen :=
  let half := pen.curveBy dx₁ 0 dx₂ dy₂ dx₃ 0
  let x₄ := half.x + dx₄
  let x₅ := x₄ + dx₅
  half.curveTo ⟨x₄, half.y⟩ ⟨x₅, pen.y⟩ ⟨x₅ + dx₆, pen.y⟩

------------------------------------------------------------
-- Operators
------------------------------------------------------------

/- The pen moved along an axis by a number that is left over. -/
def shiftFirst
    (horizontal : Bool)
    (pen : CompactPen) : List Float32 → CompactPen × List Float32
| [] => (pen, [])
| d :: rest =>
    if rest.length % 2 == 1 then (pen, d :: rest)
    else if horizontal then ({ pen with x := pen.x + d }, rest)
    else ({ pen with y := pen.y + d }, rest)

/- Draws with some numbers. -/
def drawWith?
    (pen : CompactPen)
    (numbers : List Float32)
    (operator : Nat) : Option CompactPen :=
  let n := numbers.length
  match operator, numbers with
  | 5, _ => lines? numbers pen
  | 6, _ :: _ => some (axisLines true numbers pen)
  | 7, _ :: _ => some (axisLines false numbers pen)
  | 8, _ => curves? numbers pen
  | 24, _ =>
      if n < 8 then none
      else (curves? (numbers.take (n - 2)) pen).bind
        (lines? (numbers.drop (n - 2)))
  | 25, _ =>
      if n < 8 then none
      else (lines? (numbers.take (n - 6)) pen).bind
        (curves? (numbers.drop (n - 6)))
  | 26, _ =>
      let (pen, rest) := shiftFirst true pen numbers
      levelCurves? false rest pen
  | 27, _ =>
      let (pen, rest) := shiftFirst false pen numbers
      levelCurves? true rest pen
  | 30, _ :: _ => turningCurves? false numbers pen
  | 31, _ :: _ => turningCurves? true numbers pen
  | 1234, [a₁, a₂, b₂, a₃, a₄, a₅, a₆] =>
      some (pen.flexFlat a₁ a₂ b₂ a₃ a₄ a₅ a₆)
  | 1235, [a₁, b₁, a₂, b₂, a₃, b₃, a₄, b₄, a₅, b₅, a₆, b₆, _] =>
      some ((pen.curveBy a₁ b₁ a₂ b₂ a₃ b₃).curveBy a₄ b₄ a₅ b₅ a₆ b₆)
  | 1236, [a₁, b₁, a₂, b₂, a₃, a₄, a₅, b₅, a₆] =>
      some (pen.flexLevel a₁ b₁ a₂ b₂ a₃ a₄ a₅ b₅ a₆)
  | 1237, [a₁, b₁, a₂, b₂, a₃, b₃, a₄, b₄, a₅, b₅, d₆] =>
      some (pen.flexBack a₁ b₁ a₂ b₂ a₃ b₃ a₄ b₄ a₅ b₅ d₆)
  | _, _ => none

/- Draws with all the numbers on the stack once the pen is down. -/
def draw?
    (operator : Nat)
    (pen : CompactPen) : Option CompactPen :=
  if pen.isDown then
    (pen.drawWith? pen.stack operator).map clear
  else none

/- Puts the pen down at a place that the numbers give. -/
def move?
    (operator : Nat)
    (pen : CompactPen) : Option CompactPen :=
  match operator, pen.stack with
  | 21, [dx, dy] => some (pen.moveBy dx dy)
  | 22, [dx] => some (pen.moveBy dx 0)
  | 4, [dy] => some (pen.moveBy 0 dy)
  | _, _ => none

/- How many numbers give a place. -/
def moveSize
    (operator : Nat) : Nat :=
  if operator == 21 then 2 else 1

end CompactPen

end FixedPage
