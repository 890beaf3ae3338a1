import FixedPage.Path.Data

/-
  This file states the grammar of path data and what its
  commands draw. A sentence is a row of commands with their
  operands; each group of operands is one clause. What a clause
  draws is told from the clauses before it.

  Main declarations:
    * `Sentence`
    * `Clause`
    * `currentPoint`
    * `subpathStart`
    * `reach`
    * `calls`
-/

namespace FixedPage.PathData

variable {α : Type}

------------------------------------------------------------
-- Grammar
------------------------------------------------------------

/- A group of operands and whether its points are relative. -/
structure Clause (α : Type) where
  relative : Bool
  group : Group α
deriving DecidableEq, Repr

/- The tokens of a point. -/
def pointTokens
    (p : Point α) : List (Token α) :=
  [.number p.x, .comma, .number p.y]

/- One group of operands of a command, given in uppercase. -/
inductive Operands :
    Char → List (Token α) → Group α → Prop
| move
    (p : Point α) :
    Operands 'M' (pointTokens p) (.move p)
| line
    (p : Point α) :
    Operands 'L' (pointTokens p) (.line p)
| horizontal
    (x : α) :
    Operands 'H' [.number x] (.horizontal x)
| vertical
    (y : α) :
    Operands 'V' [.number y] (.vertical y)
| cubic
    (p₁ p₂ p₃ : Point α) :
    Operands 'C' (pointTokens p₁ ++ pointTokens p₂ ++ pointTokens p₃)
      (.cubic p₁ p₂ p₃)
| quadratic
    (p₁ p₂ : Point α) :
    Operands 'Q' (pointTokens p₁ ++ pointTokens p₂)
      (.quadratic p₁ p₂)
| smooth
    (p₂ p₃ : Point α) :
    Operands 'S' (pointTokens p₂ ++ pointTokens p₃)
      (.smooth p₂ p₃)
| arc
    (size target : Point α)
    (rotation isLarge sweep : α) :
    Operands 'A'
      (pointTokens size
        ++ [.number rotation, .number isLarge, .number sweep]
        ++ pointTokens target)
      (.arc target)

/- Further points of a move draw lines. -/
def furtherLetter
    (letter : Char) : Char :=
  if letter = 'M' then 'L' else letter

/- One or more groups of operands of a command. -/
inductive Groups :
    Char → Bool → List (Token α) → List (Clause α) → Prop
| last
    {letter : Char}
    {ts : List (Token α)}
    {g : Group α}
    (relative : Bool)
    (hGroup : Operands letter ts g) :
    Groups letter relative ts [⟨relative, g⟩]
| more
    {letter : Char}
    {relative : Bool}
    {ts us : List (Token α)}
    {g : Group α}
    {cs : List (Clause α)}
    (hGroup : Operands letter ts g)
    (hMore : Groups (furtherLetter letter) relative us cs) :
    Groups letter relative (ts ++ us) (⟨relative, g⟩ :: cs)

/-
  The operands of a command letter: some groups, nothing for a
  close, one number for the fill rule.
-/
inductive CommandOperands
    [Scalar α] :
    Char → List (Token α) → List (Clause α) → Prop
| groups
    {letter : Char}
    {ts : List (Token α)}
    {cs : List (Clause α)}
    (hGroups : Groups letter.toUpper letter.isLower ts cs) :
    CommandOperands letter ts cs
| close
    {letter : Char}
    (hLetter : letter = 'Z' ∨ letter = 'z') :
    CommandOperands letter [] [⟨letter.isLower, .close⟩]
| fill
    (n : α) :
    CommandOperands 'F' [.number n]
      [⟨false, .fill (if n == 0 then .evenOdd else .nonZero)⟩]

/- A sentence is a row of commands with their operands. -/
inductive Sentence
    [Scalar α] :
    List (Token α) → List (Clause α) → Prop
| nil :
    Sentence [] []
| command
    {letter : Char}
    {ts us : List (Token α)}
    {cs ds : List (Clause α)}
    (hOperands : CommandOperands letter ts cs)
    (hRest : Sentence us ds) :
    Sentence (.command letter :: (ts ++ us)) (cs ++ ds)

------------------------------------------------------------
-- Drawing
------------------------------------------------------------

section

variable [Scalar α]

mutual

/-
  The current point after some clauses, the last one first. Arcs
  are not drawn and leave it where it is.
-/
def currentPoint : List (Clause α) → Point α
| [] => .origin
| ⟨relative, group⟩ :: before =>
    let now := currentPoint before
    let place (p : Point α) := if relative then now.add p else p
    match group with
    | .move p => place p
    | .line p => place p
    | .horizontal x => ⟨if relative then now.x + x else x, now.y⟩
    | .vertical y => ⟨now.x, if relative then now.y + y else y⟩
    | .cubic _ _ p => place p
    | .quadratic _ p => place p
    | .smooth _ p => place p
    | .arc _ => now
    | .close => subpathStart before
    | .fill _ => now

/- The point of the last move among some clauses. -/
def subpathStart : List (Clause α) → Point α
| [] => .origin
| ⟨relative, group⟩ :: before =>
    match group with
    | .move p =>
        if relative then (currentPoint before).add p else p
    | _ => subpathStart before

end

/- A point operand after some clauses. -/
def placeAfter
    (before : List (Clause α))
    (relative : Bool)
    (p : Point α) : Point α :=
  if relative then (currentPoint before).add p else p

/-
  The way from the second control point to the end of the last
  clause if that is a cubic curve, and no way otherwise.
-/
def reach : List (Clause α) → Point α
| ⟨relative, .cubic _ p₂ p₃⟩ :: before =>
    (placeAfter before relative p₃).sub (placeAfter before relative p₂)
| ⟨relative, .smooth p₂ p₃⟩ :: before =>
    (placeAfter before relative p₃).sub (placeAfter before relative p₂)
| _ => .origin

/- What a clause draws after some clauses. -/
def callsOf
    (before : List (Clause α))
    (c : Clause α) : List (PathStep α) :=
  let place := placeAfter before c.relative
  let now := currentPoint before
  let next := currentPoint (c :: before)
  match c.group with
  | .move _ => [.draw (.moveTo next)]
  | .line _ => [.draw (.lineTo next)]
  | .horizontal _ => [.draw (.lineTo next)]
  | .vertical _ => [.draw (.lineTo next)]
  | .cubic p₁ p₂ _ => [.draw (.curveTo (place p₁) (place p₂) next)]
  | .quadratic q _ =>
      [.draw
        (.curveTo (Pen.twoThirds (place q) now)
          (Pen.twoThirds (place q) next) next)]
  | .smooth p₂ _ =>
      [.draw (.curveTo (now.add (reach before)) (place p₂) next)]
  | .arc _ => []
  | .close => [.draw .close]
  | .fill rule => [.rule rule]

/- What some clauses draw, the last one first. -/
def callsUpTo : List (Clause α) → List (PathStep α)
| [] => []
| c :: before => callsUpTo before ++ callsOf before c

/- What the clauses of a sentence draw. -/
def calls
    (cs : List (Clause α)) : List (PathStep α) :=
  callsUpTo cs.reverse

end

end FixedPage.PathData
