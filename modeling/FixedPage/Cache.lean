/-
  This file defines memories of what has been loaded. A name
  that was loaded once is never asked for again; a failed load
  is not remembered.

  Main declarations:
    * `Cache`
    * `Cache.getOrLoad`
-/

namespace FixedPage

/-
  Loaded values by name, the latest first, and the names that
  were asked for from the loader, the latest first.
-/
structure Cache (β : Type) where
  entries : List (String × β)
  requests : List String

namespace Cache

variable {ε β : Type}

/- The cache that holds nothing. -/
def empty : Cache β :=
  ⟨[], []⟩

/- Value of a name that was loaded before. -/
def get?
    (c : Cache β)
    (name : String) : Option β :=
  c.entries.lookup name

/- Number of names with a value. -/
def size
    (c : Cache β) : Nat :=
  c.entries.length

/-
  The value of a name, loaded unless it is held, and the cache
  afterwards.
-/
def getOrLoad
    (load : String → Except ε β)
    (name : String)
    (c : Cache β) : Except ε β × Cache β :=
  match c.get? name with
  | some value => (.ok value, c)
  | none =>
      let requests := name :: c.requests
      match load name with
      | .ok value => (.ok value, ⟨(name, value) :: c.entries, requests⟩)
      | .error fault => (.error fault, ⟨c.entries, requests⟩)

/- Forgets which names were asked for, but not their values. -/
def forgetRequests
    (c : Cache β) : Cache β :=
  { c with requests := [] }

end Cache

end FixedPage
