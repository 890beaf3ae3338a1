import FixedPage.Font.Compact.Charset
import FixedPage.Font.Compact.Dictionary
import FixedPage.Font.Compact.Pen
import FixedPage.Font.Variation.Store

/-
  This file runs the programs that draw the glyphs of compact
  fonts. A program may call others that several glyphs share. In
  plain fonts it may end with two other glyphs, a letter and its
  accent; in variable fonts it may blend numbers.

  Main declarations:
    * `CompactKind`
    * `CompactFont`
    * `CompactFont.extent?`
-/

namespace FixedPage

/- Whether glyphs are plain or vary. -/
inductive CompactKind where
  | plain
      (charset : Charset)
  | varied
      (store? : Option VariationStore)

/-
  A compact font: the programs of its glyphs, those that all
  glyphs share, and those that some share with a glyph.
-/
structure CompactFont where
  kind : CompactKind
  programs : CompactIndex
  shared : CompactIndex
  nearby? : Nat → Option CompactIndex

/- The kind is plain. -/
def CompactKind.isPlain : CompactKind → Bool
| .plain _ => true
| .varied _ => false

------------------------------------------------------------
-- States
------------------------------------------------------------

/-
  What a program has done so far: the pen; whether it has given a
  width, ended, or added an accent; the number of stems; and how
  much each difference counts in a blend, and whether that was
  chosen or used.
-/
structure CompactState where
  pen : CompactPen
  hasWidth : Bool
  hasEnded : Bool
  hasAccent : Bool
  stems : Nat
  weights : List Float32
  isChosen : Bool
  isBlended : Bool

namespace CompactState

/- The state before a program. -/
def start
    (weights : List Float32) : CompactState :=
  ⟨.start, false, false, false, 0, weights, false, false⟩

/- A whole number in a range without the fraction of a number. -/
def whole?
    (size : Nat)
    (x : Float32) : Option Nat :=
  if -1 < x && x < Float32.ofNat size then some x.toInt32.toInt.toNat
  else none

/- Drops a width that may precede some numbers. -/
def dropWidth
    (s : CompactState) : CompactState :=
  { s with
    hasWidth := true
    pen := { s.pen with stack := s.pen.stack.drop 1 } }

/- Counts the stems that the numbers on the stack describe. -/
def countStems
    (s : CompactState) : CompactState :=
  let n := s.pen.stack.length
  { s with
    hasWidth := s.hasWidth || n % 2 == 1
    stems := s.stems + n / 2
    pen := s.pen.clear }

/- Number of bytes with a bit for each stem. -/
def maskSize
    (s : CompactState) : Nat :=
  (s.stems + 7) / 8

/- Puts the pen down; a width may precede the first place. -/
def move?
    (isPlain : Bool)
    (operator : Nat)
    (s : CompactState) : Option CompactState :=
  let more := CompactPen.moveSize operator + 1
  let s :=
    if isPlain && !s.hasWidth && s.pen.stack.length == more then
      s.dropWidth
    else s
  (s.pen.move? operator).map fun pen => { s with pen }

/- Most regions that differences belong to. -/
def maxRegions : Nat :=
  64

/- How much each difference of a table counts. -/
def weights?
    (store? : Option VariationStore)
    (table : Nat) : Option (List Float32) := do
  let store ← store?
  let regions ← store.regions? table
  if maxRegions < regions.length then none
  else some (regions.map store.weight)

/- Chooses the table of differences, at most once. -/
def choose?
    (store? : Option VariationStore)
    (s : CompactState) : Option CompactState :=
  match s.pen.stack with
  | [x] => do
      let table ← whole? (Nat.pow 2 16) x
      let weights ← weights? store? table
      if s.isChosen || s.isBlended then none
      else some { s with weights, isChosen := true, pen := s.pen.clear }
  | _ => none

/- Adds to each number the differences that belong to it. -/
def blendAll
    (weights : List Float32) :
    List Float32 → List Float32 → List Float32
| [], _ => []
| x :: xs, deltas =>
    let own := deltas.take weights.length
    let sum :=
      (List.zip own weights).foldr (fun (d, w) sum => sum + d * w) x
    sum :: blendAll weights xs (deltas.drop weights.length)

/- Blends the numbers on the stack with their differences. -/
def blend?
    (s : CompactState) : Option CompactState := do
  let (n, pen) ← s.pen.pop?
  let n ← whole? (Nat.pow 2 16) n
  let size := n * (s.weights.length + 1)
  if pen.stack.length < size then none
  else
    let front := pen.stack.length - size
    let found := pen.stack.drop front
    let blended := blendAll s.weights (found.take n) (found.drop n)
    some
      { s with
        isBlended := true
        pen := { pen with stack := pen.stack.take front ++ blended } }

/- Runs an operator that neither calls nor ends a program. -/
def act?
    (kind : CompactKind)
    (operator : Nat)
    (s : CompactState) : Option CompactState :=
  match operator, kind with
  | 1, _ => some s.countStems
  | 3, _ => some s.countStems
  | 18, _ => some s.countStems
  | 23, _ => some s.countStems
  | 4, _ => s.move? kind.isPlain 4
  | 21, _ => s.move? kind.isPlain 21
  | 22, _ => s.move? kind.isPlain 22
  | 15, .varied store? => s.choose? store?
  | 16, .varied _ => s.blend?
  | _, _ => (s.pen.draw? operator).map fun pen => { s with pen }

end CompactState

------------------------------------------------------------
-- Programs
------------------------------------------------------------

/- A number or an operator of a program. -/
inductive CompactToken where
  | number
      (n : Float32)
  | operator
      (code : Nat)

/- Takes the next number or operator. -/
def CompactToken.takeNext : Scan CompactToken := do
  let b ← Scan.byte
  if b == 12 then do
    let second ← Scan.byte
    pure (.operator (1200 + second))
  else if b == 28 then
    (fun n => .number (Float32.ofInt n)) <$> Scan.signed 2
  else if b < 32 then pure (.operator b)
  else if b ≤ 246 then pure (.number (Float32.ofInt (b - 139)))
  else if b ≤ 250 then do
    let low ← Scan.byte
    pure (.number (Float32.ofInt ((b - 247) * 256 + low + 108)))
  else if b ≤ 254 then do
    let low ← Scan.byte
    pure (.number (Float32.ofInt (-(b - 251) * 256 - low - 108)))
  else do
    let n ← Scan.signed 4
    pure (.number (Float32.ofInt n / 65536))

namespace CompactFont

/- Most numbers on the stack. -/
def stackSize
    (f : CompactFont) : Nat :=
  if f.kind.isPlain then 48 else 513

/- Most calls that may be open. -/
def maxCalls : Nat :=
  10

/- The number that a call adds to the one of a shared program. -/
def bias
    (programs : CompactIndex) : Nat :=
  if programs.size < 1240 then 107
  else if programs.size < 33900 then 1131
  else 32768

/- The shared program of a number. -/
def shared?
    (programs : CompactIndex)
    (n : Float32) : Option (List UInt8) :=
  let i := n.toInt32.toInt + bias programs
  if i < 0 then none else programs.get? i.toNat

/- Runs a program that is called. -/
abbrev Call : Type :=
  List UInt8 → CompactState → Option CompactState

/- The program of a letter that a code stands for. -/
def letter?
    (f : CompactFont)
    (charset : Charset)
    (code : Float32) : Option (List UInt8) := do
  let code ← CompactState.whole? (Nat.pow 2 8) code
  let glyph ← charset.glyphOfCode? code
  f.programs.get? glyph

/- Ends a program; an accent with its letter may come first. -/
def finish?
    (f : CompactFont)
    (call : Call)
    (charset : Charset)
    (s : CompactState) : Option CompactState :=
  let numbers :=
    if s.pen.stack.length == 5 && !s.hasWidth then s.pen.stack.drop 1
    else s.pen.stack
  match numbers with
  | [dx, dy, letter, accent] => do
      let accent ← f.letter? charset accent
      let letter ← f.letter? charset letter
      let hasWidth := s.hasWidth || s.pen.stack.length == 5
      let s := { s with hasWidth, hasAccent := true, pen := s.pen.clear }
      let s ← call letter s
      let s ← call accent { s with pen := { s.pen with x := dx, y := dy } }
      pure { s with hasEnded := true }
  | [_] =>
      if s.hasWidth then some { s with hasEnded := true }
      else some { s.dropWidth with hasEnded := true }
  | _ => some { s with hasEnded := true }

/-
  Runs a program of a glyph. Nothing may follow its end, also
  not behind a call that ended it.
-/
def runWith
    (f : CompactFont)
    (glyph : Nat)
    (call : Call) :
    Nat → List UInt8 → CompactState → Option CompactState
| 0, _, s => some s
| _, [], s => some s
| fuel + 1, bytes, s => do
    let (token, rest) ← CompactToken.takeNext.run bytes
    match token, f.kind with
    | .number n, _ => do
        let pen ← s.pen.push? f.stackSize n
        f.runWith glyph call fuel rest { s with pen }
    | .operator 11, .plain _ => some s
    | .operator 14, .plain charset => do
        let s ← f.finish? call charset s
        if rest.isEmpty then some s else none
    | .operator code, _ =>
        if code == 10 || code == 29 then do
          let (n, pen) ← s.pen.pop?
          let programs ←
            if code == 29 then some f.shared else f.nearby? glyph
          let body ← shared? programs n
          let s ← call body { s with pen }
          if s.hasEnded && !s.hasAccent then
            if rest.isEmpty then some s else none
          else f.runWith glyph call fuel rest s
        else if code == 19 || code == 20 then
          let s := s.countStems
          f.runWith glyph call fuel (rest.drop s.maskSize) s
        else do
          let s ← s.act? f.kind code
          f.runWith glyph call fuel rest s

/- Runs a program in which some calls may be open at once. -/
def run
    (f : CompactFont)
    (glyph : Nat) :
    Nat → Call
| 0 => fun bytes => f.runWith glyph (fun _ _ => none) bytes.length bytes
| calls + 1 => fun bytes =>
    f.runWith glyph (f.run glyph calls) bytes.length bytes

/- The state before the program of a glyph. -/
def start?
    (f : CompactFont) : Option CompactState :=
  match f.kind with
  | .plain _ => some (.start [])
  | .varied store? => (CompactState.weights? store? 0).map .start

/- The space that a glyph takes. A plain program has to end. -/
def extent?
    (f : CompactFont)
    (glyph : Nat) : Option OutlineExtent := do
  let bytes ← f.programs.get? glyph
  let s ← f.start?
  let s ← f.run glyph maxCalls bytes s
  if f.kind.isPlain && !s.hasEnded then none
  else s.pen.extent?

end CompactFont

end FixedPage
