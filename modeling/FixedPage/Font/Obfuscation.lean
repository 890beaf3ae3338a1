import FixedPage.Error
import FixedPage.Font.Face
import FixedPage.Markup.Reference
import FixedPage.Text.Blank

/-
  This file loads the fonts of a package. The first bytes of a
  font may be obfuscated with a key that is the name of its part:
  sixteen bytes in hexadecimal, with braces and hyphens.

  Main declarations:
    * `Obfuscation.key?`
    * `Obfuscation.apply`
    * `Face.load`
-/

namespace FixedPage

namespace Obfuscation

open Text

/- The name of a part without its folder and its extensions. -/
def stem
    (name : String) : List Char :=
  let file :=
    match cutLast '/' name.toList with
    | some (_, file) => file
    | none => name.toList
  file.takeWhile (· != '.')

/- Characters of a name that are no digits of its key. -/
def isSeparator
    (c : Char) : Bool :=
  c == '\x7b' || c == '\x7d' || c == '-'

/-
  Reads two characters as a byte. A plus sign may stand for the
  first digit.
-/
def byte?
    (high low : Char) : Option UInt8 := do
  let high ← if high == '+' then some 0 else Markup.digit? 16 high
  let low ← Markup.digit? 16 low
  pure (UInt8.ofNat (16 * high + low))

/- Reads characters two by two as bytes. -/
def pairs? : List Char → Option (List UInt8)
| [] => some []
| high :: low :: rest => do
    let byte ← byte? high low
    let bytes ← pairs? rest
    pure (byte :: bytes)
| _ => none

/- The key that the name of a part gives. -/
def key?
    (name : String) : Option (List UInt8) :=
  let digits := (stem name).filter fun c => !isSeparator c
  if digits.length == 32 then pairs? digits else none

/- Number of bytes that are obfuscated. -/
def extent : Nat :=
  32

/-
  Combines the first bytes of a font with the bytes of a key,
  the last one first. Doing so twice changes nothing.
-/
def apply
    (key : List UInt8)
    (file : List UInt8) : List UInt8 :=
  let stream := key.reverse ++ key.reverse
  List.zipWith (· ^^^ ·) (file.take extent) stream
    ++ file.drop extent

end Obfuscation

/-
  The face of a font part. A part that is no font by itself is
  one whose name is the key that its bytes are obfuscated with.
-/
def Face.load
    (part? : String → Option (List UInt8))
    (name : String) : Except Error Face :=
  match part? name with
  | none => .error (.notFound name)
  | some file =>
      match Face.read file.toArray, Obfuscation.key? name with
      | .ok face, _ => .ok face
      | .error _, none =>
          .error (.font (name ++ " is not a font and has no GUID name"))
      | .error _, some key =>
          match Face.read (Obfuscation.apply key file).toArray with
          | .ok face => .ok face
          | .error fault =>
              .error (.font (name ++ ": " ++ fault.message))

end FixedPage
