import FixedPage.Image.Jpeg.Coefficient

/-
  This file takes the blocks of an image from the coded data of
  its scans. Blocks come in units, and after some units coding
  starts anew. When a symbol is not understood, the blocks that
  are left are not coded.

  Main declarations:
    * `Jpeg.splitData`
    * `Jpeg.Frame.places`
    * `Jpeg.Blocks`
    * `Jpeg.Blocks.addScan`
-/

namespace FixedPage.Jpeg

------------------------------------------------------------
-- Coded data
------------------------------------------------------------

/-
  Splits coded data at the marks where coding starts anew; gives
  the pieces, the last one first, and where the data ends. A zero
  behind the byte of marks makes it a byte of the data.
-/
def splitFrom
    (file : Bytes) :
    Nat → Nat → Bytes → List Bytes → List Bytes × Nat
| 0, offset, piece, done => (piece :: done, offset)
| fuel + 1, offset, piece, done =>
    match file[offset]?, file[offset + 1]? with
    | none, _ => (piece :: done, offset)
    | some b, next? =>
        let next := (next?.getD 0).toNat
        if b != 0xFF then
          splitFrom file fuel (offset + 1) (piece.push b) done
        else if next == 0 then
          splitFrom file fuel (offset + 2) (piece.push b) done
        else if next == 0xFF then
          splitFrom file fuel (offset + 1) piece done
        else if 0xD0 ≤ next && next ≤ 0xD7 then
          splitFrom file fuel (offset + 2) #[] (piece :: done)
        else (piece :: done, offset)

/- The pieces of coded data in order, and where it ends. -/
def splitData
    (file : Bytes)
    (offset : Nat) : List Bytes × Nat :=
  let (pieces, after) := splitFrom file file.size offset #[] []
  (pieces.reverse, after)

------------------------------------------------------------
-- Units
------------------------------------------------------------

/- Most blocks of a component along an axis of a unit. -/
def Frame.maxAcross
    (f : Frame) : Nat :=
  (f.components.map Component.across).foldl max 1

def Frame.maxDown
    (f : Frame) : Nat :=
  (f.components.map Component.down).foldl max 1

/- How many things of some size cover a length. -/
def covering
    (length size : Nat) : Nat :=
  (length + size - 1) / size

/- Units in a row and in a column of an image. -/
def Frame.unitsAcross
    (f : Frame) : Nat :=
  covering f.width (8 * f.maxAcross)

def Frame.unitsDown
    (f : Frame) : Nat :=
  covering f.height (8 * f.maxDown)

/- A block of a component and the row of units that it is in. -/
structure Place where
  part : Part
  block : Nat
  row : Nat

/- The block of a component at a column and a row of blocks. -/
def Frame.placeAt
    (f : Frame)
    (part : Part)
    (c : Component)
    (x y : Nat) : Place :=
  ⟨part, y * (f.unitsAcross * c.across) + x, y / c.down⟩

/- The blocks of one unit of several components. -/
def Frame.unitPlaces
    (f : Frame)
    (parts : List (Part × Component))
    (x y : Nat) : List Place :=
  parts.flatMap fun (part, c) =>
    (List.range c.down).flatMap fun j =>
      (List.range c.across).map fun i =>
        f.placeAt part c (x * c.across + i) (y * c.down + j)

/-
  The units of a scan. When it has only one component, each block
  that the image needs is a unit.
-/
def Frame.places
    (f : Frame)
    (scan : Scan) : List (List Place) :=
  let parts :=
    scan.parts.filterMap fun part =>
      (f.components[part.component]?).map fun c => (part, c)
  match parts with
  | [(part, c)] =>
      let columns :=
        covering (covering (f.width * c.across) f.maxAcross) 8
      let rows := covering (covering (f.height * c.down) f.maxDown) 8
      (List.range rows).flatMap fun y =>
        (List.range columns).map fun x => [f.placeAt part c x y]
  | _ =>
      (List.range f.unitsDown).flatMap fun y =>
        (List.range f.unitsAcross).map fun x => f.unitPlaces parts x y

/- Splits a list into pieces of some size; zero means one piece. -/
def chunks
    {β : Type}
    (size : Nat) :
    Nat → List β → List (List β)
| 0, _ => []
| _, [] => []
| fuel + 1, list =>
    if size == 0 then [list]
    else list.take size :: chunks size fuel (list.drop size)

------------------------------------------------------------
-- Blocks
------------------------------------------------------------

/-
  The blocks of each component, which are empty until they are
  coded, and the row of units where coding broke off.
-/
structure Blocks where
  components : Array (Array Block)
  brokenRow? : Option Nat

namespace Blocks

/- The blocks of an image before the first scan. -/
def initial
    (f : Frame) : Blocks :=
  let blocksOf := fun (c : Component) =>
    Array.replicate
      (f.unitsAcross * c.across * (f.unitsDown * c.down)) #[]
  ⟨(f.components.map blocksOf).toArray, none⟩

/- A block of a component. -/
def block
    (b : Blocks)
    (component i : Nat) : Block :=
  (b.components.getD component #[]).getD i #[]

/- Replaces a block of a component. -/
def set
    (b : Blocks)
    (component i : Nat)
    (block : Block) : Blocks :=
  { b with
    components :=
      b.components.modify component fun blocks =>
        blocks.setIfInBounds i block }

/- Adds what a scan says to a block. -/
def addPlace?
    (s : Setup)
    (scan : Scan)
    (pass : Pass)
    (place : Place)
    (block : Block) : Step Block := do
  let old := if block.isEmpty then emptyBlock else block
  let codeOf := fun (codes : List (Nat × PrefixCode)) (n : Nat) =>
    (codes.lookup n).getD ⟨[], #[]⟩
  let firstCode := codeOf s.firstCodes place.part.firstCode
  let furtherCode := codeOf s.furtherCodes place.part.furtherCode
  pass.take scan firstCode furtherCode place.part.component old

/- Adds a piece of the data of a scan. -/
def addPiece
    (s : Setup)
    (scan : Scan)
    (pass : Pass) :
    List Place → Reader → Blocks → Blocks
| [], _, b => b
| place :: rest, r, b =>
    let component := place.part.component
    let old := b.block component place.block
    match (addPlace? s scan pass place old).run r with
    | some (new, r) =>
        addPiece s scan pass rest r (b.set component place.block new)
    | none => { b with brokenRow? := some place.row }

/- Adds the pieces of the data of a scan until it breaks off. -/
def addPieces
    (s : Setup)
    (scan : Scan)
    (pass : Pass) :
    List (List Place) → List Bytes → Blocks → Blocks
| [], _, b => b
| places :: rest, pieces, b =>
    let predictions := Array.replicate maxTables 0
    let r : Reader := ⟨pieces.headD #[], 0, predictions, 0⟩
    let b := addPiece s scan pass places r b
    if b.brokenRow?.isSome then b
    else addPieces s scan pass rest (pieces.drop 1) b

/- Adds a scan whose data is split into pieces. -/
def addScan
    (b : Blocks)
    (s : Setup)
    (f : Frame)
    (scan : Scan)
    (pass : Pass)
    (pieces : List Bytes) : Blocks :=
  let units := f.places scan
  let groups := (chunks s.interval units.length units).map List.flatten
  addPieces s scan pass groups pieces b

/- Every component has got its first block. -/
def isStarted
    (b : Blocks) : Bool :=
  b.components.all fun blocks => !(blocks.getD 0 #[]).isEmpty

end Blocks

end FixedPage.Jpeg
