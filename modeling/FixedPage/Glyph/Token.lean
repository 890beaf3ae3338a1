import FixedPage.Decimal.Numeral
import FixedPage.Path.Token

/-
  This file cuts glyph indices into tokens. Nothing separates
  tokens; numbers start with a digit or a sign and may have a
  point and an exponent.

  Main declarations:
    * `Indices.Token`
    * `Indices.Lexemes`
    * `Indices.scan`
-/

namespace FixedPage.Indices

------------------------------------------------------------
-- Tokens
------------------------------------------------------------

/- What a token stands for. -/
inductive Token (α : Type) where
  | number
      (value : α)
  | comma
  | colon
  | semicolon
  | openCluster
  | closeCluster
  | stray
      (c : Char)
deriving DecidableEq, Repr

/- How a token is named in an error. -/
def Token.describe
    {α : Type}
    [Scalar α] : Token α → String
| .number value => "number " ++ Scalar.text value
| .comma => "','"
| .colon => "':'"
| .semicolon => "';'"
| .openCluster => "'('"
| .closeCluster => "')'"
| .stray c =>
    "invalid character '" ++ (PathData.leadByte c).toString ++ "'"

/- The token that a single character stands for. -/
def Token.ofChar
    {α : Type} : Char → Token α
| ',' => .comma
| ':' => .colon
| ';' => .semicolon
| '(' => .openCluster
| ')' => .closeCluster
| c => .stray c

/- A token and the byte offset where it starts. -/
structure Placed (α : Type) where
  token : Token α
  offset : Nat
deriving DecidableEq, Repr

/- The tokens of glyph indices up to their end. -/
structure Lexemes (α : Type) where
  tokens : List (Placed α)
  ending : PathData.Ending
deriving DecidableEq, Repr

------------------------------------------------------------
-- Scanning
------------------------------------------------------------

/- Characters that a number can start with. -/
def startsNumber
    (c : Char) : Bool :=
  c.isDigit || c == '+' || c == '-'

/- The digits that a text starts with, and what follows. -/
def cutDigits
    (cs : List Char) : List Char × List Char :=
  (cs.takeWhile Char.isDigit, cs.dropWhile Char.isDigit)

/- The fraction that a text starts with, and what follows. -/
def cutFraction : List Char → List Char × List Char
| '.' :: rest =>
    ('.' :: (cutDigits rest).1, (cutDigits rest).2)
| cs => ([], cs)

/- The exponent that a text starts with, and what follows. -/
def cutExponent : List Char → List Char × List Char
| c :: rest =>
    if c == 'e' || c == 'E' then
      match rest with
      | s :: digits =>
          if s == '+' || s == '-' then
            (c :: s :: (cutDigits digits).1, (cutDigits digits).2)
          else (c :: (cutDigits rest).1, (cutDigits rest).2)
      | [] => ([c], [])
    else ([], c :: rest)
| [] => ([], [])

/-
  The characters of a number that starts with `c` and goes on
  in `rest`, and what follows it.
-/
def cutNumber
    (c : Char)
    (rest : List Char) : List Char × List Char :=
  let (whole, tail) := cutDigits rest
  let (fraction, tail) := cutFraction tail
  let (exponent, tail) := cutExponent tail
  (c :: whole ++ fraction ++ exponent, tail)

theorem length_cutDigits_le
    (cs : List Char) :
    (cutDigits cs).2.length ≤ cs.length :=
  (List.dropWhile_sublist _).length_le

theorem length_cutFraction_le
    (cs : List Char) :
    (cutFraction cs).2.length ≤ cs.length := by
  unfold cutFraction
  split
  · rename_i rest
    exact Nat.le_succ_of_le (length_cutDigits_le rest)
  · exact Nat.le_refl _

theorem length_cutExponent_le
    (cs : List Char) :
    (cutExponent cs).2.length ≤ cs.length := by
  unfold cutExponent
  split
  · rename_i c rest
    split
    · split
      · rename_i s digits
        split
        · exact Nat.le_succ_of_le
            (Nat.le_succ_of_le (length_cutDigits_le digits))
        · exact Nat.le_succ_of_le (length_cutDigits_le (s :: digits))
      · exact Nat.zero_le _
    · exact Nat.le_refl _
  · exact Nat.le_refl _

/- What follows a number is no longer than what it started in. -/
theorem length_cutNumber_le
    (c : Char)
    (rest : List Char) :
    (cutNumber c rest).2.length ≤ rest.length :=
  Nat.le_trans (length_cutExponent_le _)
    (Nat.le_trans (length_cutFraction_le _) (length_cutDigits_le rest))

/-
  Cuts glyph indices into tokens, `offset` being the byte
  offset of their first character.
-/
def scan
    {α : Type}
    [Scalar α]
    (offset : Nat) :
    List Char → Lexemes α
| [] => ⟨[], .complete offset⟩
| c :: rest =>
    if startsNumber c then
      let number := cutNumber c rest
      match (Scalar.read? number.1).filter Scalar.isFinite with
      | none => ⟨[], .malformed offset (String.ofList number.1)⟩
      | some value =>
          have : (cutNumber c rest).2.length < rest.length + 1 :=
            Nat.lt_succ_of_le (length_cutNumber_le c rest)
          let following :=
            scan (offset + PathData.byteLength number.1) number.2
          { following with
            tokens := ⟨.number value, offset⟩ :: following.tokens }
    else
      let following := scan (offset + c.utf8Size) rest
      { following with
        tokens := ⟨.ofChar c, offset⟩ :: following.tokens }
termination_by cs => cs.length

end FixedPage.Indices
