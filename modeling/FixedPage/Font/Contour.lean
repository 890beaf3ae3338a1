import FixedPage.Font.Outline
import FixedPage.Scan

/-
  This file reads outlines that are made of closed contours. A
  contour is a row of points that lie on it or bend it; between
  two points that bend it lies one on it, halfway.

  Main declarations:
    * `ContourPoint`
    * `ContourPoint.readAll?`
    * `Contour.reached`
-/

namespace FixedPage

/- A point of a contour, and whether it is the last one. -/
structure ContourPoint where
  x : Int
  y : Int
  onCurve : Bool
  isLast : Bool
deriving DecidableEq, Repr

namespace ContourPoint

------------------------------------------------------------
-- Reading
------------------------------------------------------------

/- Marks of a point, given by the bits of a byte. -/
abbrev Marks : Type :=
  Nat

/-
  Takes the marks of some points. Marks may say that they hold
  for several points.
-/
def takeMarks
    (fuel points : Nat) : Scan (List Marks) :=
  match fuel with
  | 0 => pure []
  | fuel + 1 =>
      if points == 0 then pure []
      else do
        let marks ← Scan.byte
        let times ←
          if marks.testBit 3 then (· + 1) <$> Scan.byte else pure 1
        if points < times then failure
        else do
          let rest ← takeMarks fuel (points - times)
          pure (List.replicate times marks ++ rest)

/-
  Takes coordinates, each given by its distance to the one
  before, which wraps around. The bits `short` and `same` of its
  marks say how the distance is stored.
-/
def takeCoordinates
    (short same : Nat)
    (current : Int) :
    List Marks → Scan (List Int)
| [] => pure []
| marks :: rest => do
    let distance : Int ←
      if marks.testBit short then do
        let n ← Scan.byte
        pure (if marks.testBit same then n else -n)
      else if marks.testBit same then pure 0
      else Scan.signed 2
    let next := Int.bmod (current + distance) (Nat.pow 2 16)
    let others ← takeCoordinates short same next rest
    pure (next :: others)

/-
  Which of some points are the last ones of their contours. The
  current contour has `left` points before its last one, whose
  number is `last`; `lasts` are those of the contours behind it.
-/
def lastMarks
    (last left : Nat)
    (lasts : List Nat) :
    Nat → List Bool
| 0 => []
| points + 1 =>
    match left, lasts with
    | left + 1, _ => false :: lastMarks last left lasts points
    | 0, next :: rest =>
        true :: lastMarks next (next - last - 1) rest points
    | 0, [] => true :: lastMarks last 0 [] points

/-
  Takes the points of some contours. An outline of one point is
  no outline.
-/
def takeAll
    (contours : Nat) : Scan (List ContourPoint) := do
  let lasts ← Scan.several Scan.word contours
  let last := lasts.getLast?.getD 0
  if last == Nat.pow 2 16 - 1 then failure
  else if last == 0 then pure []
  else do
    let instructions ← Scan.word
    Scan.skip instructions
    let points := last + 1
    let marks ← takeMarks points points
    let xs ← takeCoordinates 1 4 0 marks
    let ys ← takeCoordinates 2 5 0 marks
    let first := lasts.headD 0
    let ends := lastMarks first first (lasts.drop 1) points
    pure
      ((List.zip (List.zip xs ys) (List.zip marks ends)).map
        fun ((x, y), marks, isLast) => ⟨x, y, marks.testBit 0, isLast⟩)

/- Reads the points of some contours. -/
def readAll?
    (contours : Nat)
    (bytes : List UInt8) : Option (List ContourPoint) :=
  ((takeAll contours).run bytes).map (·.1)

/- The point before any variation. -/
def point
    (p : ContourPoint) : OutlinePoint :=
  ⟨Float32.ofInt p.x, Float32.ofInt p.y⟩

end ContourPoint

------------------------------------------------------------
-- Drawing
------------------------------------------------------------

/-
  Where the drawing of a contour is: its first point on the
  curve, the points off the curve before that, and the points
  off the curve since the last one on it.
-/
structure ContourPen where
  firstOn? : Option OutlinePoint
  firstOff? : Option OutlinePoint
  lastOff? : Option OutlinePoint

namespace ContourPen

/- The pen before a contour. -/
def start : ContourPen :=
  ⟨none, none, none⟩

/- The pen after a point, and the points reached by drawing. -/
def push
    (pen : ContourPen)
    (p : OutlinePoint)
    (onCurve : Bool) : ContourPen × List OutlinePoint :=
  match pen.firstOn?, pen.firstOff?, pen.lastOff? with
  | none, off?, _ =>
      if onCurve then (⟨some p, off?, none⟩, [p])
      else
        match off? with
        | none => (⟨none, some p, none⟩, [])
        | some off =>
            let middle := off.middle p
            (⟨some middle, off?, some p⟩, [middle])
  | on?, off?, some off =>
      if onCurve then (⟨on?, off?, none⟩, [off, p])
      else (⟨on?, off?, some p⟩, [off, off.middle p])
  | on?, off?, none =>
      if onCurve then (⟨on?, off?, none⟩, [p])
      else (⟨on?, off?, some p⟩, [])

/- The points reached by drawing back to the first point. -/
def finish
    (pen : ContourPen) : List OutlinePoint :=
  match pen.firstOn?, pen.firstOff?, pen.lastOff? with
  | none, _, _ => []
  | some on, some first, some last =>
      [last, last.middle first, first, on]
  | some on, some first, none => [first, on]
  | some on, none, some last => [last, on]
  | some on, none, none => [on]

end ContourPen

namespace Contour

/-
  The points reached by drawing some points: each with whether
  it is on the curve and whether it is the last of its contour.
-/
def reached
    (pen : ContourPen) :
    List (OutlinePoint × Bool × Bool) → List OutlinePoint
| [] => []
| (p, onCurve, isLast) :: rest =>
    let (pen, found) := pen.push p onCurve
    if isLast then found ++ pen.finish ++ reached .start rest
    else found ++ reached pen rest

end Contour

end FixedPage
