import FixedPage.Paint.Literal
import Mathlib.Data.Finset.Card

/-
  This file says what a memory knows after some names have been
  looked up in it, given a loader that answers a name in the same
  way each time.

  Main declarations:
    * `Cache.Faithful`
    * `Cache.Serves`
    * `Cache.lookAll`
    * `Cache.Remembers`
    * `Cache.lookAll_remembers`
    * `Cache.lookAll_requests`
    * `ColorLiteral.resolve_serves`
-/

namespace FixedPage

namespace Cache

variable {ε β : Type} {load : String → Except ε β} {c : Cache β}
variable {name : String}

------------------------------------------------------------
-- One name
------------------------------------------------------------

/- A name that is held is not asked for. -/
theorem getOrLoad_of_held
    {value : β}
    (hHeld : c.get? name = some value) :
    c.getOrLoad load name = (.ok value, c) := by
  unfold getOrLoad
  rw [hHeld]

/- A name that is answered is held from then on. -/
theorem getOrLoad_of_ok
    {value : β}
    (hNone : c.get? name = none)
    (hLoad : load name = .ok value) :
    c.getOrLoad load name =
      (.ok value,
        ⟨(name, value) :: c.entries, name :: c.requests⟩) := by
  unfold getOrLoad
  rw [hNone, hLoad]

/- A failure is not remembered. -/
theorem getOrLoad_of_error
    {fault : ε}
    (hNone : c.get? name = none)
    (hLoad : load name = .error fault) :
    c.getOrLoad load name =
      (.error fault, ⟨c.entries, name :: c.requests⟩) := by
  unfold getOrLoad
  rw [hNone, hLoad]

/- A new entry is found by its name only. -/
theorem get?_cons
    (value : β)
    (entries : List (String × β))
    (requests requests' : List String)
    (other : String) :
    get? ⟨(name, value) :: entries, requests⟩ other =
      if other = name then some value
      else get? ⟨entries, requests'⟩ other := by
  unfold get?
  rw [List.lookup_cons]
  by_cases hSame : other = name
  · rw [hSame, beq_self_eq_true, if_pos rfl]
  · rw [beq_eq_false_iff_ne.mpr hSame, if_neg hSame]

------------------------------------------------------------
-- Faithful memories
------------------------------------------------------------

/- Every value that is held is the one that loading would give. -/
def Faithful
    (load : String → Except ε β)
    (c : Cache β) : Prop :=
  ∀ name value, c.get? name = some value → load name = .ok value

/- The empty cache holds nothing else. -/
theorem Faithful.empty
    (load : String → Except ε β) :
    Faithful load Cache.empty :=
  fun _ _ hHeld => nomatch hHeld

/- From a faithful cache a name has the value that is loaded. -/
theorem Faithful.getOrLoad_fst
    (hFaithful : c.Faithful load)
    (name : String) :
    (c.getOrLoad load name).1 = load name := by
  cases hHeld : c.get? name with
  | some value =>
      rw [getOrLoad_of_held hHeld]
      exact (hFaithful name value hHeld).symm
  | none =>
      cases hLoad : load name with
      | ok value => rw [getOrLoad_of_ok hHeld hLoad]
      | error fault => rw [getOrLoad_of_error hHeld hLoad]

/- What a faithful cache holds after a name was looked up. -/
theorem Faithful.get?_getOrLoad
    (hFaithful : c.Faithful load)
    (name other : String) :
    (c.getOrLoad load name).2.get? other =
      if other = name then (load name).toOption else c.get? other := by
  cases hHeld : c.get? name with
  | some value =>
      rw [getOrLoad_of_held hHeld, hFaithful name value hHeld]
      by_cases hSame : other = name
      · rw [if_pos hSame, hSame, hHeld]
        rfl
      · rw [if_neg hSame]
  | none =>
      cases hLoad : load name with
      | ok value =>
          rw [getOrLoad_of_ok hHeld hLoad]
          exact get?_cons value c.entries _ c.requests other
      | error fault =>
          rw [getOrLoad_of_error hHeld hLoad]
          by_cases hSame : other = name
          · rw [if_pos hSame, hSame]
            exact hHeld
          · rw [if_neg hSame]
            rfl

/- A faithful cache stays faithful. -/
theorem Faithful.getOrLoad_snd
    (hFaithful : c.Faithful load)
    (name : String) :
    (c.getOrLoad load name).2.Faithful load := by
  intro other value hHeld
  rw [hFaithful.get?_getOrLoad] at hHeld
  by_cases hSame : other = name
  · rw [if_pos hSame] at hHeld
    rw [hSame]
    cases hLoad : load name with
    | ok found =>
        rw [hLoad] at hHeld
        exact congrArg Except.ok (Option.some.inj hHeld)
    | error fault =>
        rw [hLoad] at hHeld
        cases hHeld
  · rw [if_neg hSame] at hHeld
    exact hFaithful other value hHeld

------------------------------------------------------------
-- Pairs of memories
------------------------------------------------------------

/-
  Whichever of two memories is asked, it answers alike, and the
  memories go on to be as they were to each other.
-/
def Serves
    (load : String → Except ε β)
    (R : Cache β → Cache β → Prop) : Prop :=
  ∀ name c c', R c c' →
    (c'.getOrLoad load name).1 = (c.getOrLoad load name).1 ∧
      R (c.getOrLoad load name).2 (c'.getOrLoad load name).2

/- A memory answers like itself. -/
theorem Serves.same
    (load : String → Except ε β) :
    Serves load Eq := by
  rintro name c _ rfl
  exact ⟨rfl, rfl⟩

------------------------------------------------------------
-- Several names
------------------------------------------------------------

/- The memory after some names were looked up, in order. -/
def lookAll
    (load : String → Except ε β)
    (names : List String)
    (c : Cache β) : Cache β :=
  names.foldl (fun c name => (c.getOrLoad load name).2) c

@[simp] theorem lookAll_nil :
    c.lookAll load [] = c :=
  rfl

theorem lookAll_append
    (names more : List String) :
    c.lookAll load (names ++ more) =
      (c.lookAll load names).lookAll load more :=
  List.foldl_append

@[simp] theorem lookAll_concat
    (names : List String) :
    c.lookAll load (names ++ [name]) =
      ((c.lookAll load names).getOrLoad load name).2 :=
  lookAll_append ..

/- Looking names up leaves a memory faithful. -/
theorem Faithful.lookAll
    (hFaithful : c.Faithful load)
    (names : List String) :
    (c.lookAll load names).Faithful load := by
  induction names generalizing c with
  | nil => exact hFaithful
  | cons name names ih => exact ih (hFaithful.getOrLoad_snd name)

/- What a memory holds after some names were looked up. -/
theorem Faithful.get?_lookAll
    (hFaithful : c.Faithful load)
    (names : List String)
    (name : String) :
    (c.lookAll load names).get? name =
      if name ∈ names then (load name).toOption else c.get? name := by
  induction names using List.reverseRecOn with
  | nil => simp
  | append_singleton names last ih =>
      rw [lookAll_concat, (hFaithful.lookAll names).get?_getOrLoad, ih]
      by_cases hSame : name = last
      · simp [hSame]
      · simp [hSame]

/-
  What a memory knows when some names have been looked up in it
  and nothing else was there before.
-/
structure Remembers
    (load : String → Except ε β)
    (names : List String)
    (c : Cache β) : Prop where
  /- It holds the values of the names that were answered. -/
  held :
    ∀ name,
      c.get? name =
        if name ∈ names then (load name).toOption else none
  /- A name that was answered has been asked for once. -/
  once :
    ∀ name value,
      load name = .ok value →
        c.requests.count name = if name ∈ names then 1 else 0
  /- A name that fails has been asked for each time. -/
  again :
    ∀ name fault,
      load name = .error fault →
        c.requests.count name = names.count name
  /- Names were asked for in the order of the lookups. -/
  inOrder : c.requests.reverse.Sublist names
  /- It has as many entries as names that were answered. -/
  size :
    c.size = (names.toFinset.filter fun n => (load n).isOk).card
  /- A name that fails will be asked for again, and not be held. -/
  failed :
    ∀ name fault,
      load name = .error fault →
        c.getOrLoad load name =
          (.error fault, ⟨c.entries, name :: c.requests⟩)

namespace Remembers

variable {names : List String}

/- What is held has been looked up. -/
theorem mem_of_held
    {value : β}
    (hRemembers : c.Remembers load names)
    (hHeld : c.get? name = some value) :
    name ∈ names := by
  by_contra hNot
  rw [hRemembers.held, if_neg hNot] at hHeld
  cases hHeld

theorem faithful
    (hRemembers : c.Remembers load names) :
    c.Faithful load := by
  intro name value hHeld
  have hMem := hRemembers.mem_of_held hHeld
  rw [hRemembers.held, if_pos hMem] at hHeld
  cases hLoad : load name with
  | ok found =>
      rw [hLoad] at hHeld
      exact congrArg Except.ok (Option.some.inj hHeld)
  | error fault =>
      rw [hLoad] at hHeld
      cases hHeld

/- A name that fails is not held. -/
theorem failed_of_held
    (hHeld :
      ∀ name,
        c.get? name =
          if name ∈ names then (load name).toOption else none)
    (name : String)
    (fault : ε)
    (hLoad : load name = .error fault) :
    c.getOrLoad load name =
      (.error fault, ⟨c.entries, name :: c.requests⟩) := by
  have hNone : c.get? name = none := by
    rw [hHeld, hLoad]
    exact ite_self none
  exact getOrLoad_of_error hNone hLoad

/- Nothing has been looked up in the empty memory. -/
theorem empty
    (load : String → Except ε β) :
    Remembers load [] Cache.empty where
  held _ := rfl
  once _ _ _ := rfl
  again _ _ _ := rfl
  inOrder := .slnil
  size := rfl
  failed _ _ hLoad := getOrLoad_of_error rfl hLoad

/- A name that is held may be looked up again. -/
theorem known
    {value : β}
    (hRemembers : c.Remembers load names)
    (hHeld : c.get? name = some value) :
    c.Remembers load (names ++ [name]) := by
  have hLoad : load name = .ok value :=
    hRemembers.faithful name value hHeld
  have hMem := hRemembers.mem_of_held hHeld
  have hSame (other : String) : other ∈ names ++ [name] ↔ other ∈ names := by
    rw [List.mem_append, List.mem_singleton]
    exact or_iff_left_of_imp fun hEq => hEq ▸ hMem
  exact
    { held := fun other => by
        simp only [hSame]
        exact hRemembers.held other
      once := fun other found hFound => by
        simp only [hSame]
        exact hRemembers.once other found hFound
      again := fun other fault hFault => by
        have hOther : ¬ name = other := by
          rintro rfl
          rw [hLoad] at hFault
          cases hFault
        rw [hRemembers.again other fault hFault, List.count_append]
        simp [hOther]
      inOrder := hRemembers.inOrder.trans (List.sublist_append_left _ _)
      size := by
        have hNames : (names ++ [name]).toFinset = names.toFinset := by
          ext other
          rw [List.mem_toFinset, List.mem_toFinset, hSame]
        rw [hNames]
        exact hRemembers.size
      failed := hRemembers.failed }

/- A name that is answered is held from then on. -/
theorem answered
    {value : β}
    (hRemembers : c.Remembers load names)
    (hNone : c.get? name = none)
    (hLoad : load name = .ok value) :
    Remembers load (names ++ [name])
      ⟨(name, value) :: c.entries, name :: c.requests⟩ := by
  have hNew : name ∉ names := by
    intro hMem
    rw [hRemembers.held, if_pos hMem, hLoad] at hNone
    cases hNone
  have hHeld (other : String) :
      get? ⟨(name, value) :: c.entries, name :: c.requests⟩ other =
        if other ∈ names ++ [name] then (load other).toOption
        else none := by
    refine (get?_cons value c.entries _ c.requests other).trans ?_
    by_cases hSame : other = name
    · rw [if_pos hSame, hSame, hLoad]
      simp [Except.toOption]
    · rw [if_neg hSame]
      simp only [List.mem_append, List.mem_singleton, hSame, or_false]
      exact hRemembers.held other
  exact
    { held := hHeld
      once := fun other found hFound => by
        by_cases hSame : other = name
        · subst hSame
          have hBefore := hRemembers.once other found hFound
          rw [if_neg hNew] at hBefore
          simp [hBefore]
        · have hBefore := hRemembers.once other found hFound
          simpa [List.count_cons, hSame, Ne.symm hSame] using hBefore
      again := fun other fault hFault => by
        have hOther : ¬ name = other := by
          rintro rfl
          rw [hLoad] at hFault
          cases hFault
        have hBefore := hRemembers.again other fault hFault
        simpa [List.count_cons, List.count_append, hOther] using hBefore
      inOrder := by
        rw [List.reverse_cons]
        exact hRemembers.inOrder.append (List.Sublist.refl _)
      size := by
        have hNames :
            (names ++ [name]).toFinset = insert name names.toFinset := by
          ext other
          simp
        have hOk : (load name).isOk = true := by
          rw [hLoad]
          rfl
        rw [hNames, Finset.filter_insert, if_pos hOk,
          Finset.card_insert_of_notMem (by simp [hNew]),
          ← hRemembers.size]
        rfl
      failed := failed_of_held hHeld }

/- A failure is not remembered. -/
theorem refused
    {fault : ε}
    (hRemembers : c.Remembers load names)
    (hLoad : load name = .error fault) :
    Remembers load (names ++ [name])
      ⟨c.entries, name :: c.requests⟩ := by
  have hHeld (other : String) :
      get? ⟨c.entries, name :: c.requests⟩ other =
        if other ∈ names ++ [name] then (load other).toOption
        else none := by
    refine (hRemembers.held other).trans ?_
    by_cases hSame : other = name
    · rw [hSame, hLoad]
      simp [Except.toOption]
    · simp [hSame]
  exact
    { held := hHeld
      once := fun other found hFound => by
        have hOther : ¬ name = other := by
          rintro rfl
          rw [hLoad] at hFound
          cases hFound
        have hBefore := hRemembers.once other found hFound
        simpa [List.count_cons, hOther, Ne.symm hOther] using hBefore
      again := fun other fault' hFault => by
        have hBefore := hRemembers.again other fault' hFault
        rw [List.count_cons, List.count_append, hBefore,
          List.count_singleton]
      inOrder := by
        rw [List.reverse_cons]
        exact hRemembers.inOrder.append (List.Sublist.refl _)
      size := by
        have hNames :
            (names ++ [name]).toFinset = insert name names.toFinset := by
          ext other
          simp
        have hOk : ¬ (load name).isOk = true := by
          rw [hLoad]
          exact Bool.false_ne_true
        rw [hNames, Finset.filter_insert, if_neg hOk]
        exact hRemembers.size
      failed := failed_of_held hHeld }

/- One more name is looked up. -/
theorem lookup
    (hRemembers : c.Remembers load names)
    (name : String) :
    Remembers load (names ++ [name]) (c.getOrLoad load name).2 := by
  cases hHeld : c.get? name with
  | some value =>
      rw [getOrLoad_of_held hHeld]
      exact hRemembers.known hHeld
  | none =>
      cases hLoad : load name with
      | ok value =>
          rw [getOrLoad_of_ok hHeld hLoad]
          exact hRemembers.answered hHeld hLoad
      | error fault =>
          rw [getOrLoad_of_error hHeld hLoad]
          exact hRemembers.refused hLoad

end Remembers

/- What a memory knows that has been empty before some lookups. -/
theorem lookAll_remembers
    (load : String → Except ε β)
    (names : List String) :
    (Cache.empty.lookAll load names).Remembers load names := by
  induction names using List.reverseRecOn with
  | nil => exact .empty load
  | append_singleton names name ih =>
      rw [lookAll_concat]
      exact ih.lookup name

/-
  Names that have been asked for stand for all that have been
  looked up, since looking up a name that was answered before
  makes no difference.
-/
theorem Faithful.lookAll_requests
    (hFaithful : c.Faithful load)
    (names : List String) :
    c.lookAll load
        (Cache.empty.lookAll load names).requests.reverse =
      c.lookAll load names := by
  induction names using List.reverseRecOn with
  | nil => rfl
  | append_singleton names name ih =>
      have hRemembers := lookAll_remembers load names
      have hAfter := hFaithful.get?_lookAll names name
      rw [lookAll_concat, lookAll_concat]
      generalize Cache.empty.lookAll load names = e at ih hRemembers ⊢
      cases hHeld : e.get? name with
      | some value =>
          have hKnown :
              (c.lookAll load names).get? name = some value := by
            rw [hAfter, if_pos (hRemembers.mem_of_held hHeld),
              hRemembers.faithful name value hHeld]
            rfl
          rw [getOrLoad_of_held hHeld, getOrLoad_of_held hKnown]
          exact ih
      | none =>
          have hAsked :
              (e.getOrLoad load name).2.requests =
                name :: e.requests := by
            cases hLoad : load name with
            | ok value => rw [getOrLoad_of_ok hHeld hLoad]
            | error fault => rw [getOrLoad_of_error hHeld hLoad]
          rw [hAsked, List.reverse_cons, lookAll_concat, ih]

end Cache

------------------------------------------------------------
-- Profiles
------------------------------------------------------------

/- A color in a profile is resolved alike from two memories. -/
theorem ColorLiteral.resolve_serves
    {α : Type}
    [Scalar α]
    {source : ProfileSource α}
    {R : ProfileCache α → ProfileCache α → Prop}
    {profiles profiles' : ProfileCache α}
    (hServes : Cache.Serves source.load R)
    (hProfiles : R profiles profiles')
    (literal : String) :
    (resolve (some source) literal profiles').1 =
        (resolve (some source) literal profiles).1 ∧
      R (resolve (some source) literal profiles).2
        (resolve (some source) literal profiles').2 := by
  unfold resolve
  dsimp only
  split
  · exact ⟨rfl, hProfiles⟩
  · split
    · exact ⟨rfl, hProfiles⟩
    · split
      · exact ⟨rfl, hProfiles⟩
      · split
        · rename_i spec _
          unfold resolveInProfile
          dsimp only
          cases inProfile? (α := α) spec with
          | none => exact ⟨rfl, hProfiles⟩
          | some literal =>
              rcases hServes
                (PartName.resolve source.source literal.profile)
                profiles profiles' hProfiles with
                ⟨hLoaded, hCaches⟩
              dsimp only
              generalize profiles.getOrLoad source.load _ = outcome
                at hLoaded hCaches ⊢
              generalize profiles'.getOrLoad source.load _ = outcome'
                at hLoaded hCaches ⊢
              rcases outcome with ⟨result, cache⟩
              rcases outcome' with ⟨result', cache'⟩
              dsimp only at hLoaded hCaches
              rw [hLoaded]
              cases result <;> exact ⟨rfl, hCaches⟩
        · exact ⟨rfl, hProfiles⟩

end FixedPage
