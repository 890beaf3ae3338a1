import FixedPage.Image.Jpeg.Coefficient

/-
  This file turns the coefficients of a block into samples. The
  inverse cosine transform is computed with integers, first down
  the columns and then along the rows. Samples form planes, and
  planes with fewer samples than the image has pixels are brought
  to its size.

  Main declarations:
    * `Jpeg.transformLine`
    * `Jpeg.samplesOf`
    * `Jpeg.Plane`
    * `Jpeg.doubleLine`
    * `Jpeg.Plane.enlarge`
-/

namespace FixedPage.Jpeg

------------------------------------------------------------
-- Blocks
------------------------------------------------------------

/- Place in a block of each coefficient as they are coded. -/
def codedOrder : Array Nat :=
  #[0, 1, 8, 16, 9, 2, 3, 10, 17, 24, 32, 25, 18, 11, 4, 5,
    12, 19, 26, 33, 40, 48, 41, 34, 27, 20, 13, 6, 7, 14, 21, 28,
    35, 42, 49, 56, 57, 50, 43, 36, 29, 22, 15, 23, 30, 37, 44, 51,
    58, 59, 52, 45, 38, 31, 39, 46, 53, 60, 61, 54, 47, 55, 62, 63]

/- Weighs the coefficients of a block and puts them in place. -/
def weigh
    (weights : Array Nat)
    (block : Block) : Block :=
  (List.range blockSize).foldl
    (fun placed i =>
      placed.setIfInBounds (codedOrder.getD i 0)
        (block.getD i 0 * weights.getD i 0))
    emptyBlock

/-
  Transforms eight values. Factors are in steps of `1 / 4096`;
  results are rounded by a bias and lose some bits.
-/
def transformLine
    (bias : Int)
    (loss : Nat) : List Int → List Int
| [s0, s1, s2, s3, s4, s5, s6, s7] =>
    let e := (s2 + s6) * 2217
    let e2 := e - s6 * 7567
    let e3 := e + s2 * 3135
    let e0 := (s0 + s4) * 4096
    let e1 := (s0 - s4) * 4096
    let x0 := e0 + e3 + bias
    let x1 := e1 + e2 + bias
    let x2 := e1 - e2 + bias
    let x3 := e0 - e3 + bias
    let q := (s7 + s3 + s5 + s1) * 4816
    let q1 := q - (s7 + s1) * 3685
    let q2 := q - (s5 + s3) * 10497
    let q3 := -(s7 + s3) * 8034
    let q4 := -(s5 + s1) * 1597
    let o0 := s7 * 1223 + q1 + q3
    let o1 := s5 * 8410 + q2 + q4
    let o2 := s3 * 12586 + q2 + q3
    let o3 := s1 * 6149 + q1 + q4
    [x0 + o3, x1 + o2, x2 + o1, x3 + o0,
      x3 - o0, x2 - o1, x1 - o2, x0 - o3].map (· / Int.pow 2 loss)
| line => line

/- The values of a block in a column or in a row. -/
def columnOf
    (block : Block)
    (x : Nat) : List Int :=
  (List.range 8).map fun y => block.getD (8 * y + x) 0

def rowOf
    (block : Block)
    (y : Nat) : List Int :=
  (List.range 8).map fun x => block.getD (8 * y + x) 0

/- Brings a sample to the range of a byte. -/
def clampSample
    (n : Int) : Nat :=
  min n.toNat 255

/-
  The samples of a block by rows. Columns keep two bits more than
  rows; samples are 128 where all coefficients are zero.
-/
def samplesOf
    (weights : Array Nat)
    (block : Block) : Array Nat :=
  let placed := weigh weights block
  let columns :=
    (List.range 8).map fun x => transformLine 512 10 (columnOf placed x)
  let turned : Block := columns.flatten.toArray
  let rows :=
    (List.range 8).map fun y =>
      transformLine (512 + 65536 + 128 * Int.pow 2 17) 17
        (columnOf turned y)
  (rows.flatten.map clampSample).toArray

------------------------------------------------------------
-- Planes
------------------------------------------------------------

/- Rows of samples. -/
abbrev Plane : Type :=
  Array (Array Nat)

/- A sample and a quarter of the way to its neighbor. -/
def mixNear
    (near far : Nat) : Nat :=
  (3 * near + far + 2) / 4

/-
  Doubles things along a line. Each gives two, one for either
  neighbor; the first and the last are their own neighbors.
-/
def doubleLine
    {β : Type}
    (mix : β → β → β)
    (line : Array β) : Array β :=
  let pairs :=
    line.toList.zipIdx.map fun (x, i) =>
      [mix x (line.getD (i - 1) x), mix x (line.getD (i + 1) x)]
  pairs.flatten.toArray

/- Repeats things along a line. -/
def repeatLine
    {β : Type}
    (times : Nat)
    (line : Array β) : Array β :=
  (line.toList.flatMap fun x => List.replicate times x).toArray

/- Makes a line longer by a factor. -/
def enlargeLine
    {β : Type}
    (mix : β → β → β)
    (factor : Nat)
    (line : Array β) : Array β :=
  match factor with
  | 1 => line
  | 2 => doubleLine mix line
  | _ => repeatLine factor line

namespace Plane

/- Mixes two rows. -/
def mixRows
    (near far : Array Nat) : Array Nat :=
  Array.zipWith mixNear near far

/- Makes a plane larger, first its height and then its width. -/
def enlarge
    (plane : Plane)
    (across down : Nat) : Plane :=
  (enlargeLine mixRows down plane).map (enlargeLine mixNear across)

/- A sample of a plane. -/
def sample
    (plane : Plane)
    (x y : Nat) : Nat :=
  (plane.getD y #[]).getD x 0

end Plane

end FixedPage.Jpeg
