import FixedPage.Cache
import FixedPage.Decimal.Numeral
import FixedPage.Markup.Reference
import FixedPage.Package.Archive
import FixedPage.Paint.Pattern

/-
  This file resolves color literals. There are three kinds:

    #RRGGBB, #AARRGGBB       channels from 0 to 255
    sc#r,g,b, sc#a,r,g,b     channels clamped to the unit range
    ContextColor URI a,c,..  channels of a color profile

  Only profiles with four ink channels can be converted.

  Main declarations:
    * `ColorFault`
    * `ColorProfile`
    * `ColorLiteral.ofHex`
    * `ColorLiteral.ofChannels`
    * `ColorLiteral.resolve`
-/

namespace FixedPage

------------------------------------------------------------
-- Faults
------------------------------------------------------------

/-
  Why a literal is no color: it breaks the rules of its kind, or
  it cannot be converted.
-/
inductive ColorFault where
  | malformed
      (literal : String)
  | unsupported
      (reason : String)
deriving DecidableEq, Repr

/- Wording of a fault. -/
def ColorFault.message : ColorFault → String
| .malformed literal =>
    "malformed color literal '" ++ literal ++ "'"
| .unsupported reason => "unsupported color '" ++ reason ++ "'"

------------------------------------------------------------
-- Profiles
------------------------------------------------------------

/- Red, green and blue of some ink amounts. -/
structure Primaries (α : Type) where
  red : α
  green : α
  blue : α
deriving DecidableEq, Repr

/-
  A loaded color profile. It converts the amounts of four inks,
  unless its channels are something else.
-/
structure ColorProfile (α : Type) where
  convert? : Option (α → α → α → α → Primaries α)

namespace ColorProfile

variable {α : Type}

/- The profile has four ink channels. -/
def isInk
    (p : ColorProfile α) : Bool :=
  p.convert?.isSome

/- Number of channels that a literal must give. -/
def channels
    (p : ColorProfile α) : Nat :=
  if p.isInk then 4 else 0

end ColorProfile

/- The memory of loaded profiles. -/
abbrev ProfileCache (α : Type) : Type :=
  Cache (ColorProfile α)

/-
  What profiles are loaded from: the part that mentions them,
  the parts of its package, and a reader for their bytes.
-/
structure ProfileSource (α : Type) where
  source : String
  part? : String → Option (List UInt8)
  read : List UInt8 → Except String (ColorProfile α)

/- Loads a profile from its part. -/
def ProfileSource.load
    {α : Type}
    (s : ProfileSource α)
    (name : String) : Except ColorFault (ColorProfile α) :=
  match s.part? name with
  | none =>
      .error (.unsupported ("ICC profile " ++ name ++ " not found"))
  | some content =>
      match s.read content with
      | .ok profile => .ok profile
      | .error reason => .error (.unsupported reason)

------------------------------------------------------------
-- Literals without a profile
------------------------------------------------------------

namespace ColorLiteral

open Text

variable {α : Type} [Scalar α]

/- A channel written as two hexadecimal digits. -/
def hexChannel
    (high low : Nat) : α :=
  Nat.cast (16 * high + low) / Nat.cast 255

/- Reads the digits of a hexadecimal literal. -/
def ofHex
    (digits : List Char) : Except ColorFault (Color α) :=
  let malformed :=
    .error (.malformed (String.ofList ('#' :: digits)))
  match digits.mapM (Markup.digit? 16) with
  | some [r, r', g, g', b, b'] =>
      .ok ⟨hexChannel r r', hexChannel g g', hexChannel b b', 1⟩
  | some [a, a', r, r', g, g', b, b'] =>
      .ok ⟨hexChannel r r', hexChannel g g', hexChannel b b',
        hexChannel a a'⟩
  | _ => malformed

/- Reads numbers between commas, infinite ones included. -/
def numbers?
    (cs : List Char) : Option (List α) :=
  (fields (· == ',') cs).mapM fun field => Scalar.read? (trim field)

/- Reads the channels of a literal that holds numbers. -/
def ofChannels
    (values : List Char) : Except ColorFault (Color α) :=
  let malformed :=
    .error (.malformed ("sc#" ++ String.ofList values))
  match (numbers? values).map (List.map Scalar.clampUnit) with
  | some [r, g, b] => .ok ⟨r, g, b, 1⟩
  | some [a, r, g, b] => .ok ⟨r, g, b, a⟩
  | _ => malformed

------------------------------------------------------------
-- Literals with a profile
------------------------------------------------------------

/- The parts of a literal that names a profile. -/
structure InProfile (α : Type) where
  profile : String
  alpha : α
  channels : List α

/- Most channels that are looked at. -/
def maxChannels : Nat :=
  8

/- Reads what follows the keyword of a literal with a profile. -/
def inProfile?
    (spec : List Char) : Option (InProfile α) := do
  let (profile, values) ← cutFirst ' ' (trim spec)
  match ← numbers? values with
  | alpha :: c :: channels =>
      pure ⟨String.ofList profile, alpha,
        (c :: channels).take maxChannels⟩
  | _ => none

/- Converts the channels of a literal. -/
def convert
    (text : String)
    (literal : InProfile α)
    (profile : ColorProfile α) : Except ColorFault (Color α) :=
  match profile.convert? with
  | none =>
      .error
        (.unsupported (text ++ ": only CMYK profiles are supported"))
  | some convert =>
      match literal.channels.map Scalar.clampUnit with
      | [c, m, y, k] =>
          let rgb := convert c m y k
          .ok ⟨rgb.red, rgb.green, rgb.blue,
            Scalar.clampUnit literal.alpha⟩
      | _ => .error (.unsupported text)

/- Resolves what follows the keyword of a literal with a profile. -/
def resolveInProfile
    (source? : Option (ProfileSource α))
    (spec : List Char)
    (cache : ProfileCache α) :
    Except ColorFault (Color α) × ProfileCache α :=
  let text := "ContextColor " ++ String.ofList spec
  match inProfile? spec, source? with
  | none, _ => (.error (.malformed text), cache)
  | some _, none => (.error (.unsupported text), cache)
  | some literal, some source =>
      let name := PartName.resolve source.source literal.profile
      match cache.getOrLoad source.load name with
      | (.error fault, cache) => (.error fault, cache)
      | (.ok profile, cache) => (convert text literal profile, cache)

/-
  Resolves a literal. Profiles that it needs are taken from the
  cache or loaded into it.
-/
def resolve
    (source? : Option (ProfileSource α))
    (literal : String)
    (cache : ProfileCache α) :
    Except ColorFault (Color α) × ProfileCache α :=
  let literal := trim literal.toList
  match afterPrefix "#".toList literal with
  | some digits => (ofHex digits, cache)
  | none =>
      match afterPrefix "sc#".toList literal with
      | some values => (ofChannels values, cache)
      | none =>
          match afterPrefix "sc".toList literal with
          | some values => (ofChannels values, cache)
          | none =>
              match afterPrefix "ContextColor ".toList literal with
              | some spec => resolveInProfile source? spec cache
              | none =>
                  (.error (.unsupported (String.ofList literal)), cache)

end ColorLiteral

end FixedPage
