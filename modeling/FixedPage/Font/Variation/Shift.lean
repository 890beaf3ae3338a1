import FixedPage.Font.Contour

/-
  This file shifts the points of an outline. A list of shifts may
  be for some points only; the other points of a contour then
  move along with the nearest ones before and behind them.

  Main declarations:
    * `PointShift`
    * `ShiftList`
    * `ShiftList.forPoints`
    * `ShiftList.inOrder`
-/

namespace FixedPage

/- A shift of a point. -/
structure PointShift where
  x : Float32
  y : Float32

namespace PointShift

/- The shift that moves nothing. -/
def none : PointShift :=
  ⟨0, 0⟩

/- Moves a point. -/
def apply
    (s : PointShift)
    (p : OutlinePoint) : OutlinePoint :=
  ⟨p.x + s.x, p.y + s.y⟩

end PointShift

/-
  Shifts that are stored one after the other, and the distances
  between the points they are for, unless they are for all.
-/
structure ShiftList where
  distances? : Option (List Nat)
  shifts : List PointShift

namespace ShiftList

------------------------------------------------------------
-- Reading
------------------------------------------------------------

/-
  Takes distances between points, in runs of one size. A run has
  to end where the distances do.
-/
def takeRuns :
    Nat → Nat → Scan (List Nat)
| 0, _ => pure []
| fuel + 1, count =>
    if count == 0 then pure []
    else do
      let control ← Scan.byte
      let size := if control.testBit 7 then 2 else 1
      let run := control % Nat.pow 2 7 + 1
      let found ← Scan.several (Scan.number size) run
      if count < run then failure
      else do
        let rest ← takeRuns fuel (count - run)
        pure (found ++ rest)

/- Takes distances between points, unless all points are meant. -/
def takeDistances : Scan (Option (List Nat)) := do
  let first ← Scan.byte
  let count ←
    if first.testBit 7 then do
      let second ← Scan.byte
      pure (first % Nat.pow 2 7 * Nat.pow 2 8 + second)
    else pure first
  if count == 0 then pure Option.none
  else some <$> takeRuns count count

/- Reads numbers in runs of one size, up to one that is cut off. -/
def readNumbers :
    Nat → List UInt8 → List Int
| 0, _ => []
| _, [] => []
| fuel + 1, control :: bytes =>
    let control := control.toNat
    let run := control % Nat.pow 2 6 + 1
    if control.testBit 7 then
      List.replicate run 0 ++ readNumbers fuel bytes
    else
      let size := if control.testBit 6 then 2 else 1
      let whole := min run (bytes.length / size)
      let numbers :=
        ((Scan.several (Scan.signed size) whole).run bytes).map (·.1)
      let rest :=
        if whole < run then []
        else readNumbers fuel (bytes.drop (size * run))
      numbers.getD [] ++ rest

/-
  Reads the shifts of some points: first how far all of them go
  along the x axis, then along the y axis.
-/
def readShifts
    (points : Nat)
    (bytes : List UInt8) : List PointShift :=
  let numbers := (readNumbers bytes.length bytes).map Float32.ofInt
  List.zipWith PointShift.mk numbers (numbers.drop points)

------------------------------------------------------------
-- Points with shifts
------------------------------------------------------------

/-
  Which points shifts are for. `wait` points come before the next
  one; all points behind the last one count.
-/
def marksFrom
    (wait : Nat)
    (distances : List Nat) :
    Nat → List Bool
| 0 => []
| points + 1 =>
    match wait, distances with
    | wait + 1, _ => false :: marksFrom wait distances points
    | 0, next :: rest => true :: marksFrom (next - 1) rest points
    | 0, [] => true :: marksFrom 0 [] points

/- Which points the shifts of a list are for. -/
def marks
    (l : ShiftList)
    (points : Nat) : List Bool :=
  match l.distances? with
  | Option.none => List.replicate points true
  | some distances =>
      marksFrom (distances.headD 0) (distances.drop 1) points

/- Hands out shifts to the points they are for. -/
def handOut :
    List Bool → List PointShift → List (Bool × Option PointShift)
| [], _ => []
| false :: marks, shifts => (false, Option.none) :: handOut marks shifts
| true :: marks, [] => (true, Option.none) :: handOut marks []
| true :: marks, s :: shifts => (true, some s) :: handOut marks shifts

/-
  The shifts of some points that belong to no contour. Points
  without a shift stay where they are.
-/
def inOrder
    (l : ShiftList)
    (points : Nat) : List PointShift :=
  (handOut (l.marks points) l.shifts).map fun (_, shift?) =>
    shift?.getD PointShift.none

------------------------------------------------------------
-- Points between others
------------------------------------------------------------

/-
  A point of a contour, whether shifts are for it, and its own
  shift.
-/
structure Stop where
  point : ContourPoint
  isMarked : Bool
  shift? : Option PointShift

/- The parts of a row of points that are contours. -/
def contours : List Stop → List (List Stop)
| [] => []
| stop :: rest =>
    if stop.point.isLast then [stop] :: contours rest
    else
      match contours rest with
      | [] => [[stop]]
      | contour :: others => (stop :: contour) :: others

/- A whole number of two bytes with a sign. -/
def isShort
    (n : Int) : Bool :=
  -Int.pow 2 15 ≤ n && n < Int.pow 2 15

/-
  How far a coordinate goes whose neighbors `a` and `b` go by
  `da` and `db`: in proportion between them, else as far as the
  nearer one.
-/
def between
    (a b n : Int)
    (da db : Float32) : Float32 :=
  if a == b then
    if da == db then da else 0
  else if n ≤ min a b then
    if a < b then da else db
  else if max a b ≤ n then
    if b < a then da else db
  else if isShort (n - a) && isShort (b - a) then
    let part := Float32.ofInt (n - a) / Float32.ofInt (b - a)
    (1 - part) * da + part * db
  else 0

/-
  The shift of a point without a shift of its own, which lies
  between the points `before` it, the nearest first, and those
  `after` it. `next` is the contour behind its own one.
-/
def follow
    (contour next before : List Stop)
    (stop : Stop)
    (after : List Stop) : PointShift :=
  let shifted := fun (s : Stop) => s.shift?.map fun d => (s.point, d)
  let behind := if stop.point.isLast then next else after
  let a? :=
    (before.findSome? shifted) <|> (behind.reverse.findSome? shifted)
  let isMarked := fun (s : Stop) => s.isMarked
  let nearest? :=
    if stop.point.isLast then Option.none
    else (after.find? isMarked).bind shifted
  let first? := (contour.find? isMarked).map fun s =>
    (s.point, s.shift?.getD PointShift.none)
  match a?, nearest? <|> first? with
  | some (a, da), some (b, db) =>
      ⟨between a.x b.x stop.point.x da.x db.x,
        between a.y b.y stop.point.y da.y db.y⟩
  | _, _ => PointShift.none

/- The shifts of the points of a contour from some point on. -/
def fromStop
    (contour next before : List Stop) :
    List Stop → List PointShift
| [] => []
| stop :: after =>
    let shift :=
      match stop.shift? with
      | some shift => shift
      | Option.none => follow contour next before stop after
    shift :: fromStop contour next (stop :: before) after

/- The shifts of the points of some contours. -/
def fromContours : List (List Stop) → List PointShift
| [] => []
| contour :: rest =>
    fromStop contour (rest.headD []) [] contour ++ fromContours rest

/- The shifts of the points of an outline. -/
def forPoints
    (l : ShiftList)
    (points : List ContourPoint) : List PointShift :=
  match l.distances? with
  | Option.none => l.inOrder points.length
  | some _ =>
      let found := handOut (l.marks points.length) l.shifts
      fromContours
        (contours
          (List.zipWith (fun point (isMarked, shift?) =>
            ⟨point, isMarked, shift?⟩) points found))

end ShiftList

end FixedPage
