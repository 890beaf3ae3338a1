import FixedPage.Error
import FixedPage.Text.Blank
import FixedPage.Text.LetterCase

/-
  This file defines packages: parts with their contents, found by
  names that do not depend on case or leading slashes. A relative
  name is resolved against the part that mentions it. Wherever a
  package is kept, its parts are reached in the same way: whether
  a part exists, its bytes one after the other, and its content as
  a whole.

  Main declarations:
    * `PartName.key`
    * `PartName.resolve`
    * `Package`
    * `Package.insert`
    * `Package.find?`
    * `PartReader`
-/

namespace FixedPage

------------------------------------------------------------
-- Names
------------------------------------------------------------

namespace PartName

open Text

/-
  The form in which names are compared: one leading slash and
  lowercase letters.
-/
def key
    (name : String) : String :=
  let bare := name.toList.dropWhile (· == '/')
  String.ofList ('/' :: lowercase bare)

/- The part of a name before its last slash. -/
def directory
    (name : List Char) : List Char :=
  match cutLast '/' name with
  | some (front, _) => front
  | none => []

/-
  Follows a segment from a place given by its segments, the
  last one first.
-/
def follow
    (place : List (List Char))
    (segment : List Char) : List (List Char) :=
  if segment == [] || segment == ['.'] then place
  else if segment == ['.', '.'] then place.drop 1
  else segment :: place

/- Segments of a name. -/
def segments
    (name : List Char) : List (List Char) :=
  fields (· == '/') name

/-
  Resolves a name against the directory of a part. A name that
  starts with a slash stands for itself.
-/
def resolve
    (source target : String) : String :=
  if target.toList.head? == some '/' then target
  else
    let walked :=
      (segments (directory source.toList) ++ segments target.toList)
        |>.foldl follow []
    let joined := ['/'].intercalate walked.reverse
    if source.toList.head? == some '/' then
      String.ofList ('/' :: joined)
    else String.ofList joined

end PartName

------------------------------------------------------------
-- Packages
------------------------------------------------------------

/- Contents by the key of the part name, each key once. -/
structure Package where
  parts : List (String × List UInt8)

namespace Package

/- The package without parts. -/
def empty : Package :=
  ⟨[]⟩

/- Adds a part or replaces the one of the same name. -/
def insert
    (p : Package)
    (name : String)
    (content : List UInt8) : Package :=
  let key := PartName.key name
  ⟨(key, content) :: p.parts.filter (fun part => part.1 != key)⟩

/- Content of a part. -/
def find?
    (p : Package)
    (name : String) : Option (List UInt8) :=
  p.parts.lookup (PartName.key name)

/- A part exists. -/
def has
    (p : Package)
    (name : String) : Bool :=
  (p.find? name).isSome

/- Number of parts. -/
def size
    (p : Package) : Nat :=
  p.parts.length

/- The package of some named contents, added in order. -/
def ofList
    (parts : List (String × List UInt8)) : Package :=
  parts.foldl (fun p part => p.insert part.1 part.2) .empty

end Package

------------------------------------------------------------
-- Readers
------------------------------------------------------------

/-
  Read access to the parts of a package. A part is streamed to its
  end to get its content, unless there is another way.
-/
class PartReader (σ : Type) where
  has : σ → String → Bool
  stream : σ → String → Except Error (List UInt8)
  read : σ → String → Except Error (List UInt8) := stream

/- A package in memory streams the bytes that it holds. -/
instance : PartReader Package where
  has := Package.has
  stream := fun p name =>
    match p.find? name with
    | some content => .ok content
    | none => .error (.notFound name)

end FixedPage
