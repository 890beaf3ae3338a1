import FixedPage.Path.Segment
import FixedPage.Path.Token

/-
  This file evaluates abbreviated path data. Commands are
  letters, uppercase ones with absolute coordinates and
  lowercase ones relative to the current point:

    M m   move, further points draw lines
    L l   lines
    H h   horizontal lines
    V v   vertical lines
    C c   cubic curves
    Q q   quadratic curves, drawn as cubic ones
    S s   cubic curves that continue the one before
    A a   arcs, read but not drawn
    Z z   closes the subpath
    F     fill rule, zero for even-odd

  A machine takes one token at a time. A token takes effect once
  the token after it has been read, so data that ends in a
  malformed number never performs the step before it.

  Main declarations:
    * `PathData.Command`
    * `PathData.Group`
    * `PathData.Pen`
    * `PathData.Pen.perform`
    * `PathData.Machine`
    * `PathData.trace`
-/

namespace FixedPage.PathData

------------------------------------------------------------
-- Faults
------------------------------------------------------------

/- Why path data is not accepted. -/
inductive Cause where
  | malformedNumber
      (text : String)
  | unexpected
      (wanted found : String)
  | unknownCommand
      (letter : Char)
deriving DecidableEq, Repr

/- Why path data is not accepted, and at which byte. -/
structure Fault where
  offset : Nat
  cause : Cause
deriving DecidableEq, Repr

/- Wording of a cause. -/
def Cause.message : Cause → String
| .malformedNumber text => "invalid number '" ++ text ++ "'"
| .unexpected wanted found =>
    "expected " ++ wanted ++ " but " ++ found ++ " found"
| .unknownCommand letter =>
    "unknown command '" ++ letter.toString ++ "'"

------------------------------------------------------------
-- Commands
------------------------------------------------------------

/- What a command draws. -/
inductive Verb where
  | move
  | line
  | horizontal
  | vertical
  | cubic
  | quadratic
  | smooth
  | arc
  | close
  | fill
deriving DecidableEq, Repr

/- A verb and whether its points are relative. -/
structure Command where
  verb : Verb
  relative : Bool
deriving DecidableEq, Repr

/- The verb that an uppercase letter stands for. -/
def Verb.ofLetter? : Char → Option Verb
| 'M' => some .move
| 'L' => some .line
| 'H' => some .horizontal
| 'V' => some .vertical
| 'C' => some .cubic
| 'Q' => some .quadratic
| 'S' => some .smooth
| 'A' => some .arc
| 'Z' => some .close
| 'F' => some .fill
| _ => none

/- Reads a command letter; the fill rule has no lowercase. -/
def Command.ofLetter?
    (letter : Char) : Option Command :=
  let relative := letter.isLower
  match Verb.ofLetter? letter.toUpper with
  | some .fill => if relative then none else some ⟨.fill, false⟩
  | some verb => some ⟨verb, relative⟩
  | none => none

/- What an operand list expects at one position. -/
inductive Slot where
  | number
  | comma
deriving DecidableEq, Repr

/- How a slot is named in an error. -/
def Slot.describe : Slot → String
| .number => "number"
| .comma => "','"

/- A token that a slot accepts. -/
def Slot.accepts
    {α : Type} : Slot → Token α → Bool
| .number, .number _ => true
| .comma, .comma => true
| _, _ => false

/- Slots of a point. -/
def pointSlots : List Slot :=
  [.number, .comma, .number]

/- Slots of one operand group of a verb. -/
def Verb.slots : Verb → List Slot
| .move => pointSlots
| .line => pointSlots
| .horizontal => [.number]
| .vertical => [.number]
| .cubic => pointSlots ++ pointSlots ++ pointSlots
| .quadratic => pointSlots ++ pointSlots
| .smooth => pointSlots ++ pointSlots
| .arc =>
    pointSlots ++ [.number, .number, .number] ++ pointSlots
| .close => []
| .fill => [.number]

/-
  The command that a further operand group belongs to: lines
  after a move, nothing after a fill rule or a close.
-/
def Command.repeated? : Command → Option Command
| ⟨.move, relative⟩ => some ⟨.line, relative⟩
| ⟨.fill, _⟩ => none
| ⟨.close, _⟩ => none
| command => some command

------------------------------------------------------------
-- Operand groups
------------------------------------------------------------

/- A verb together with one complete group of operands. -/
inductive Group (α : Type) where
  | move
      (p : Point α)
  | line
      (p : Point α)
  | horizontal
      (x : α)
  | vertical
      (y : α)
  | cubic
      (p₁ p₂ p₃ : Point α)
  | quadratic
      (p₁ p₂ : Point α)
  | smooth
      (p₂ p₃ : Point α)
  | arc
      (target : Point α)
  | close
  | fill
      (rule : FillRule)
deriving DecidableEq, Repr

/- Puts the numbers of an operand group in place. -/
def Verb.group?
    {α : Type}
    [Scalar α] :
    Verb → List α → Option (Group α)
| .move, [x, y] => some (.move ⟨x, y⟩)
| .line, [x, y] => some (.line ⟨x, y⟩)
| .horizontal, [x] => some (.horizontal x)
| .vertical, [y] => some (.vertical y)
| .cubic, [x₁, y₁, x₂, y₂, x₃, y₃] =>
    some (.cubic ⟨x₁, y₁⟩ ⟨x₂, y₂⟩ ⟨x₃, y₃⟩)
| .quadratic, [x₁, y₁, x₂, y₂] =>
    some (.quadratic ⟨x₁, y₁⟩ ⟨x₂, y₂⟩)
| .smooth, [x₂, y₂, x₃, y₃] =>
    some (.smooth ⟨x₂, y₂⟩ ⟨x₃, y₃⟩)
| .arc, [_, _, _, _, _, x, y] => some (.arc ⟨x, y⟩)
| .close, [] => some .close
| .fill, [n] =>
    some (.fill (if n == 0 then .evenOdd else .nonZero))
| _, _ => none

------------------------------------------------------------
-- Pen
------------------------------------------------------------

/-
  Where drawing goes on: the current point, the start of the
  subpath, and the vector from the second control point of the
  last curve to its end, which a smooth curve continues.
-/
structure Pen (α : Type) where
  current : Point α
  start : Point α
  control : Point α
deriving DecidableEq, Repr

namespace Pen

variable {α : Type} [Scalar α]

/- The pen before the first command. -/
def initial : Pen α :=
  ⟨.origin, .origin, .origin⟩

/- Reads a point operand. -/
def place
    (pen : Pen α)
    (relative : Bool)
    (p : Point α) : Point α :=
  if relative then pen.current.add p else p

/- Reads one coordinate operand. -/
def offset
    (relative : Bool)
    (current x : α) : α :=
  if relative then current + x else x

/- Moves the current point along something not a curve. -/
def goTo
    (pen : Pen α)
    (p : Point α) : Pen α :=
  { pen with current := p, control := .origin }

/- Ends a cubic curve. -/
def endCurve
    (pen : Pen α)
    (p₂ p₃ : Point α) : Pen α :=
  { pen with current := p₃, control := p₃.sub p₂ }

/-
  The point two thirds of the way from `p` to `q`, coordinate
  by coordinate.
-/
def twoThirds
    (q p : Point α) : Point α :=
  let two : α := Nat.cast 2
  let three : α := Nat.cast 3
  ⟨two / three * q.x + 1 / three * p.x,
    two / three * q.y + 1 / three * p.y⟩

/-
  Performs one operand group: the pen afterwards and the steps
  that it draws.
-/
def perform
    (pen : Pen α)
    (relative : Bool) :
    Group α → Pen α × List (PathStep α)
| .move p =>
    let p := pen.place relative p
    (⟨p, p, .origin⟩, [.draw (.moveTo p)])
| .line p =>
    let p := pen.place relative p
    (pen.goTo p, [.draw (.lineTo p)])
| .horizontal x =>
    let p : Point α :=
      ⟨offset relative pen.current.x x, pen.current.y⟩
    (pen.goTo p, [.draw (.lineTo p)])
| .vertical y =>
    let p : Point α :=
      ⟨pen.current.x, offset relative pen.current.y y⟩
    (pen.goTo p, [.draw (.lineTo p)])
| .cubic p₁ p₂ p₃ =>
    let p₁ := pen.place relative p₁
    let p₂ := pen.place relative p₂
    let p₃ := pen.place relative p₃
    (pen.endCurve p₂ p₃, [.draw (.curveTo p₁ p₂ p₃)])
| .quadratic q p =>
    let q := pen.place relative q
    let p := pen.place relative p
    (pen.goTo p,
      [.draw
        (.curveTo (twoThirds q pen.current) (twoThirds q p) p)])
| .smooth p₂ p₃ =>
    let p₁ := pen.current.add pen.control
    let p₂ := pen.place relative p₂
    let p₃ := pen.place relative p₃
    (pen.endCurve p₂ p₃, [.draw (.curveTo p₁ p₂ p₃)])
| .arc _ => ({ pen with control := .origin }, [])
| .close => (pen.goTo pen.start, [.draw .close])
| .fill rule => ({ pen with control := .origin }, [.rule rule])

end Pen

------------------------------------------------------------
-- Machine
------------------------------------------------------------

/-
  What the machine waits for: a command, or the remaining
  slots of an operand group whose numbers so far are given
  last first. Between groups `again?` is the command that a
  further group would belong to.
-/
inductive Mode (α : Type) where
  | between
      (again? : Option Command)
  | within
      (command : Command)
      (slots : List Slot)
      (numbers : List α)
deriving DecidableEq, Repr

/-
  The state of an evaluation. `recent` holds the steps drawn
  so far, the last one first.
-/
structure Machine (α : Type) where
  pen : Pen α
  mode : Mode α
  recent : List (PathStep α)
deriving DecidableEq, Repr

/-
  The steps that path data draws and why it stopped early, if
  it did.
-/
structure Trace (α : Type) where
  steps : List (PathStep α)
  fault? : Option Fault
deriving DecidableEq, Repr

namespace Machine

variable {α : Type} [Scalar α]

/- The machine before the first token. -/
def initial : Machine α :=
  ⟨.initial, .between none, []⟩

/- Ends an evaluation. -/
def stop
    (m : Machine α)
    (fault? : Option Fault) : Trace α :=
  ⟨m.recent.reverse, fault?⟩

/- A token that the mode does not allow. -/
def refuse
    (wanted : String)
    (p : Placed α) : Option Fault :=
  some ⟨p.offset, .unexpected wanted p.token.describe⟩

/- Why a token cannot come next, if it cannot. -/
def refuses?
    (m : Machine α)
    (p : Placed α) : Option Fault :=
  match m.mode, p.token with
  | .between _, .command _ => none
  | .between (some _), .number _ => none
  | .between _, _ => refuse "command" p
  | .within _ (slot :: _) _, token =>
      if slot.accepts token then none
      else refuse slot.describe p
  | .within _ [] _, _ => refuse "command" p

/- Performs the operand group whose numbers are complete. -/
def complete
    (m : Machine α)
    (command : Command)
    (numbers : List α) : Machine α :=
  match command.verb.group? numbers with
  | none => m
  | some group =>
      let (pen, steps) := m.pen.perform command.relative group
      ⟨pen, .between command.repeated?, steps.reverse ++ m.recent⟩

/-
  Goes on within an operand group, performing it when no slot
  is left.
-/
def fill
    (m : Machine α)
    (command : Command)
    (slots : List Slot)
    (numbers : List α) : Machine α :=
  match slots with
  | [] => m.complete command numbers.reverse
  | _ :: _ => { m with mode := .within command slots numbers }

/- Takes a token that may come next. -/
def take
    (m : Machine α)
    (p : Placed α) : Except Fault (Machine α) :=
  match m.mode, p.token with
  | .between _, .command letter =>
      match Command.ofLetter? letter with
      | none => .error ⟨p.offset, .unknownCommand letter⟩
      | some command => .ok (m.fill command command.verb.slots [])
  | .between (some command), .number value =>
      .ok (m.fill command (command.verb.slots.drop 1) [value])
  | .within command slots numbers, .number value =>
      .ok (m.fill command (slots.drop 1) (value :: numbers))
  | .within command slots numbers, .comma =>
      .ok (m.fill command (slots.drop 1) numbers)
  | _, _ => .ok m

/- Ends the data. -/
def finish
    (m : Machine α) : Ending → Trace α
| .malformed offset text =>
    m.stop (some ⟨offset, .malformedNumber text⟩)
| .complete offset =>
    match m.mode with
    | .within _ (slot :: _) _ =>
        m.stop
          (some ⟨offset, .unexpected slot.describe "end of data"⟩)
    | _ => m.stop none

/-
  The fault of the token after the current one, if that one is
  a malformed number.
-/
def lookahead?
    (rest : List (Placed α))
    (ending : Ending) : Option Fault :=
  match rest, ending with
  | [], .malformed offset text =>
      some ⟨offset, .malformedNumber text⟩
  | _, _ => none

/- Takes tokens until the data ends or a token is at fault. -/
def run
    (m : Machine α)
    (ending : Ending) :
    List (Placed α) → Trace α
| [] => m.finish ending
| p :: rest =>
    match m.refuses? p with
    | some fault => m.stop (some fault)
    | none =>
        match lookahead? rest ending with
        | some fault => m.stop (some fault)
        | none =>
            match m.take p with
            | .error fault => m.stop (some fault)
            | .ok next => next.run ending rest

end Machine

/- Evaluates path data. -/
def trace
    {α : Type}
    [Scalar α]
    (data : String) : Trace α :=
  let lexemes : Lexemes α := scan 0 data.toList
  Machine.initial.run lexemes.ending lexemes.tokens

end FixedPage.PathData
