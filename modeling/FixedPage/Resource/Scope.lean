/-
  This file defines the dictionaries that references to static
  resources are looked up in. Dictionaries are nested; the
  innermost one that has a key decides.

  Main declarations:
    * `ResourceScope`
    * `ResourceScope.set`
    * `ResourceScope.get?`
-/

namespace FixedPage

/- A dictionary from keys to stored markup. -/
abbrev ResourceDictionary : Type :=
  List (String × String)

/- The dictionaries in scope, the innermost first. -/
structure ResourceScope where
  dictionaries : List ResourceDictionary
deriving DecidableEq, Repr

namespace ResourceScope

/- The scope without dictionaries. -/
def empty : ResourceScope :=
  ⟨[]⟩

/- Opens a dictionary. -/
def push
    (s : ResourceScope) : ResourceScope :=
  ⟨[] :: s.dictionaries⟩

/- Drops the innermost dictionary, if any. -/
def pop
    (s : ResourceScope) : ResourceScope :=
  ⟨s.dictionaries.tail⟩

/- Drops several dictionaries. -/
def popMany
    (n : Nat)
    (s : ResourceScope) : ResourceScope :=
  ⟨s.dictionaries.drop n⟩

/- Number of dictionaries. -/
def depth
    (s : ResourceScope) : Nat :=
  s.dictionaries.length

/-
  Stores markup in the innermost dictionary, which is opened
  when there is none. A key keeps its first value; the result
  says whether the markup was stored.
-/
def set
    (key markup : String)
    (s : ResourceScope) : Bool × ResourceScope :=
  let (dictionary, outer) :=
    match s.dictionaries with
    | dictionary :: outer => (dictionary, outer)
    | [] => ([], [])
  if (dictionary.lookup key).isSome then
    (false, ⟨dictionary :: outer⟩)
  else
    (true, ⟨((key, markup) :: dictionary) :: outer⟩)

/- Markup stored under a key. -/
def get?
    (s : ResourceScope)
    (key : String) : Option String :=
  s.dictionaries.findSome? (·.lookup key)

end ResourceScope

end FixedPage
