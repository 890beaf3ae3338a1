import FixedPage.Profile.Curve

/-
  This file defines the stages that the table of a color profile
  consists of. Amounts go through one stage after the other. One
  kind of stage converts amounts of inks with a grid of colors
  that is interpolated between its nodes: linearly along the axis
  of the first ink, and along the others inside the simplex that
  the amounts lie in.

  Main declarations:
    * `InkGrid`
    * `InkGrid.color`
    * `Stage`
    * `Stage.apply`
    * `Stage.applyAll`
-/

namespace FixedPage

------------------------------------------------------------
-- Grids
------------------------------------------------------------

/-
  The number of nodes along each axis, and three words for each
  node, with the last ink varying fastest.
-/
structure InkGrid where
  sizes : List Nat
  words : Array Nat

namespace InkGrid

/- Number of the node at some places along the axes. -/
def nodeIndex
    (g : InkGrid)
    (places : List Nat) : Nat :=
  (g.sizes.zip places).foldl
    (fun n (size, place) => n * size + min place (size - 1)) 0

/- Word of one component of a node. -/
def word
    (g : InkGrid)
    (component : Nat)
    (places : List Nat) : Nat :=
  g.words.getD (3 * g.nodeIndex places + component) 0

/- Goes one node further along an axis. -/
def further
    (places : List Nat)
    (axis : Nat) : List Nat :=
  places.modify axis (· + 1)

/-
  Walks from a node along the axes in a given order and sums the
  parts of the steps that the ink amounts call for.
-/
def walk
    (g : InkGrid)
    (component : Nat) :
    List Nat → List (Nat × Nat) → Int
| _, [] => 0
| places, (axis, part) :: rest =>
    let next := further places axis
    let step : Int :=
      (g.word component next : Int) - g.word component places
    step * part + g.walk component next rest

/- Rounds a sum of steps, which is kept in 32 bits. -/
def roundSum
    (sum : Int) : Int :=
  let kept := sum.bmod (Nat.pow 2 32)
  (kept + (kept + 0x7FFF).tdiv 0xFFFF + 0x8000) / 0x10000

/-
  Word of a component between nodes, with the place along the
  first axis fixed. The axes are walked along by falling parts.
-/
def between
    (g : InkGrid)
    (component : Nat)
    (places : List Nat)
    (parts : List (Nat × Nat)) : Nat :=
  let order := parts.mergeSort fun p q => q.2 ≤ p.2
  let sum := roundSum (g.walk component places order)
  (((g.word component places : Int) + sum) % 0x10000).toNat

/- Words of the color of some ink amounts. -/
def colorWords
    (g : InkGrid)
    (inks : List Nat) : List Nat :=
  let located :=
    (g.sizes.zip inks).map fun (size, n) => UnitWord.locate (size - 1) n
  let places := located.map (·.1)
  let parts := located.zipIdx.map fun (found, axis) => (axis, found.2)
  let firstPart := (parts.head?.map (·.2)).getD 0
  (List.range 3).map fun component =>
    UnitWord.mix firstPart
      (g.between component places (parts.drop 1))
      (g.between component (further places 0) (parts.drop 1))

/- Color of some ink amounts. -/
def color
    (g : InkGrid)
    (inks : List Float) : List Float :=
  (g.colorWords (inks.map UnitWord.ofFloat)).map UnitWord.toFloat

end InkGrid

------------------------------------------------------------
-- Stages
------------------------------------------------------------

/- A stage of a table. -/
inductive Stage where
  | curves
      (curves : List Curve)
  | grid
      (grid : InkGrid)
  | linear
      (rows : List (List Float))
      (offset : List Float)

namespace Stage

/- Sum of products, one after the other. -/
def weigh
    (weights values : List Float) : Float :=
  (List.zipWith (· * ·) weights values).foldl (· + ·) 0

/- Takes amounts through a stage. -/
def apply
    (stage : Stage)
    (values : List Float) : List Float :=
  match stage with
  | .curves list => List.zipWith Curve.value list values
  | .grid g => g.color values
  | .linear rows offset =>
      List.zipWith (fun row shift => single (weigh row values + shift))
        rows offset

/- Takes amounts through several stages. -/
def applyAll
    (stages : List Stage)
    (values : List Float) : List Float :=
  stages.foldl (fun values stage => stage.apply values) values

/- Multiplies each of three components by a number. -/
def scale
    (a b c : Float) : Stage :=
  .linear [[a, 0, 0], [0, b, 0], [0, 0, c]] [0, 0, 0]

end Stage

end FixedPage
