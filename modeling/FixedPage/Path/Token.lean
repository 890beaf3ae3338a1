import FixedPage.Decimal.Numeral

/-
  This file cuts abbreviated path data into tokens. Spaces and
  tabs separate tokens; numbers have an optional sign, digits
  and at most one point, and no exponent.

  Main declarations:
    * `PathData.Token`
    * `PathData.Lexemes`
    * `PathData.scan`
-/

namespace FixedPage.PathData

------------------------------------------------------------
-- Tokens
------------------------------------------------------------

/- What a token stands for. -/
inductive Token (α : Type) where
  | number
      (value : α)
  | comma
  | command
      (letter : Char)
  | stray
      (c : Char)
deriving DecidableEq, Repr

/-
  The character whose code is the first byte of the encoded
  `c`; ASCII characters stand for themselves.
-/
def leadByte
    (c : Char) : Char :=
  match String.utf8EncodeChar c with
  | byte :: _ => Char.ofNat byte.toNat
  | [] => c

/- How a token is named in an error. -/
def Token.describe
    {α : Type}
    [Scalar α] : Token α → String
| .number value => "number " ++ Scalar.text value
| .comma => "','"
| .command letter => "command '" ++ letter.toString ++ "'"
| .stray c =>
    "invalid character '" ++ (leadByte c).toString ++ "'"

/- A token and the byte offset where it starts. -/
structure Placed (α : Type) where
  token : Token α
  offset : Nat
deriving DecidableEq, Repr

/-
  How a row of tokens ends: at the end of the data, or at a
  number without digits.
-/
inductive Ending where
  | complete
      (offset : Nat)
  | malformed
      (offset : Nat)
      (text : String)
deriving DecidableEq, Repr

/- The tokens of path data up to its end. -/
structure Lexemes (α : Type) where
  tokens : List (Placed α)
  ending : Ending
deriving DecidableEq, Repr

------------------------------------------------------------
-- Scanning
------------------------------------------------------------

/- Characters that separate tokens. -/
def isSpace
    (c : Char) : Bool :=
  c == ' ' || c == '\t'

/- Characters that a number can start with. -/
def startsNumber
    (c : Char) : Bool :=
  c.isDigit || c == '+' || c == '-' || c == '.'

/-
  The characters of a number that starts with `c` and goes on
  in `rest`, and what follows it.
-/
def cutNumber
    (c : Char)
    (rest : List Char) : List Char × List Char :=
  let digits := rest.takeWhile Char.isDigit
  let tail := rest.dropWhile Char.isDigit
  if c == '.' then (c :: digits, tail)
  else
    match tail with
    | '.' :: fraction =>
        (c :: digits ++ '.' :: fraction.takeWhile Char.isDigit,
          fraction.dropWhile Char.isDigit)
    | _ => (c :: digits, tail)

/- What follows a number is no longer than what it started in. -/
theorem length_cutNumber_le
    (c : Char)
    (rest : List Char) :
    (cutNumber c rest).2.length ≤ rest.length := by
  have drop_le : ∀ cs : List Char,
      (cs.dropWhile Char.isDigit).length ≤ cs.length :=
    fun cs => (List.dropWhile_sublist _).length_le
  have h₁ := drop_le rest
  unfold cutNumber
  dsimp only
  split
  · exact h₁
  · split
    · rename_i fraction h
      have h₂ := drop_le fraction
      rw [h] at h₁
      exact Nat.le_trans h₂ (Nat.le_of_succ_le h₁)
    · exact h₁

/- Bytes that some characters take. -/
def byteLength
    (cs : List Char) : Nat :=
  (cs.map Char.utf8Size).foldr (· + ·) 0

/-
  Cuts path data into tokens, `offset` being the byte offset
  of its first character.
-/
def scan
    {α : Type}
    [Scalar α]
    (offset : Nat) :
    List Char → Lexemes α
| [] => ⟨[], .complete offset⟩
| c :: rest =>
    if isSpace c then
      scan (offset + 1) rest
    else if startsNumber c then
      let number := cutNumber c rest
      match Scalar.read? number.1 with
      | none => ⟨[], .malformed offset (String.ofList number.1)⟩
      | some value =>
          have : (cutNumber c rest).2.length < rest.length + 1 :=
            Nat.lt_succ_of_le (length_cutNumber_le c rest)
          let following := scan (offset + byteLength number.1) number.2
          { following with
            tokens := ⟨.number value, offset⟩ :: following.tokens }
    else
      let token : Token α :=
        if c == ',' then .comma
        else if c.isAlpha then .command c
        else .stray c
      let following := scan (offset + c.utf8Size) rest
      { following with
        tokens := ⟨token, offset⟩ :: following.tokens }
termination_by cs => cs.length

end FixedPage.PathData
