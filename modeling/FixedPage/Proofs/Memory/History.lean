import FixedPage.Proofs.Parallel.Opening
import Mathlib.Logic.Function.Basic

/-
  This file follows the memories of an open package through any
  series of pages rendered and names looked up. The memories make
  no difference to what is rendered, and what they know depends
  on the names that were looked up and on nothing else.

  Fonts and color profiles stay in memory for the whole package,
  images for one renderer of a page. A renderer may be used
  several times, and several renderers may be used in turn.

  Main declarations:
    * `OpenPackage`
    * `Memories`
    * `Visit`
    * `OpenPackage.visit`
    * `OpenPackage.visitAll`
    * `OpenPackage.visit_looks`
    * `OpenPackage.visitAll_transparent`
-/

namespace FixedPage

variable {ρ α : Type}

------------------------------------------------------------
-- Packages
------------------------------------------------------------

/- A renderer of one page: its part, its images and its options. -/
structure Renderer (α : Type) where
  source : String
  loadImage : String → Except Error (Image α)
  options : Options

/-
  A package with renderers for its pages. Its parts do not change,
  and a name is answered in the same way each time.
-/
structure OpenPackage (ρ α : Type) where
  part? : String → Option (List UInt8)
  loadFont : String → Except Error (Font α)
  readProfile : List UInt8 → Except String (ColorProfile α)
  renderer : ρ → Renderer α

namespace OpenPackage

variable (package : OpenPackage ρ α)

/- What the page of a renderer takes from outside. -/
def environment
    (r : ρ) : Environment α :=
  { source := (package.renderer r).source
    part? := package.part?
    loadFont := package.loadFont
    loadImage := (package.renderer r).loadImage
    readProfile := package.readProfile
    options := (package.renderer r).options }

/- Loads a color profile, whichever page asks for it. -/
def loadProfile
    (name : String) : Except ColorFault (ColorProfile α) :=
  ProfileSource.load ⟨"", package.part?, package.readProfile⟩ name

end OpenPackage

/- What is in memory while a package is open. -/
structure Memories (ρ α : Type) where
  fonts : Cache (Font α)
  profiles : ProfileCache α
  images : ρ → Cache (Image α)

/- Nothing is in memory. -/
def Memories.empty : Memories ρ α :=
  ⟨.empty, .empty, fun _ => .empty⟩

------------------------------------------------------------
-- Visits
------------------------------------------------------------

/- A package is asked for a page, or a memory for a name. -/
inductive Visit (ρ : Type) where
| page
    (renderer : ρ)
| font
    (name : String)
| profile
    (name : String)
| image
    (renderer : ρ)
    (name : String)

/- What a visit gives. -/
inductive Answer (α : Type) where
| page
    (result : Except Error Unit)
    (surface : Surface α)
| font
    (loaded : Except Error (Font α))
| profile
    (loaded : Except ColorFault (ColorProfile α))
| image
    (loaded : Except Error (Image α))

namespace OpenPackage

variable [DecidableEq ρ] [Scalar α]
variable (package : OpenPackage ρ α)

/- The answer to a visit, and the memories afterwards. -/
def visit
    (m : Memories ρ α) :
    Visit ρ → Answer α × Memories ρ α
| .page r =>
    let (result, st) :=
      Page.render (package.environment r)
        (.start m.fonts (m.images r) m.profiles)
    (.page result st.surface,
      ⟨st.fonts, st.profiles, Function.update m.images r st.images⟩)
| .font name =>
    let (loaded, fonts) := m.fonts.getOrLoad package.loadFont name
    (.font loaded, { m with fonts := fonts })
| .profile name =>
    let (loaded, profiles) :=
      m.profiles.getOrLoad package.loadProfile name
    (.profile loaded, { m with profiles := profiles })
| .image r name =>
    let (loaded, images) :=
      (m.images r).getOrLoad (package.renderer r).loadImage name
    (.image loaded,
      { m with images := Function.update m.images r images })

/- The answers to several visits, and the memories afterwards. -/
def visitAll :
    List (Visit ρ) → Memories ρ α → List (Answer α) × Memories ρ α
| [], m => ([], m)
| v :: rest, m =>
    let (first, m) := package.visit m v
    let (others, m) := visitAll rest m
    (first :: others, m)

/- The fonts that a visit asks for when nothing is in memory. -/
def askedFonts
    (v : Visit ρ) : List String :=
  (package.visit .empty v).2.fonts.requests.reverse

/- The profiles that a visit asks for when nothing is in memory. -/
def askedProfiles
    (v : Visit ρ) : List String :=
  (package.visit .empty v).2.profiles.requests.reverse

/- The images that a visit asks for when nothing is in memory. -/
def askedImages
    (r : ρ)
    (v : Visit ρ) : List String :=
  ((package.visit .empty v).2.images r).requests.reverse

end OpenPackage

------------------------------------------------------------
-- One visit
------------------------------------------------------------

namespace Cache

variable {ε β : Type} {load : String → Except ε β}

/-
  Two memories in which the same names have been looked up, since
  they were like two others.
-/
def Beside
    (load : String → Except ε β)
    (c₀ c₀' : Cache β)
    (c c' : Cache β) : Prop :=
  ∃ names, c = c₀.lookAll load names ∧ c' = c₀'.lookAll load names

namespace Beside

variable {c₀ c₀' c c' : Cache β}

theorem refl
    (c₀ c₀' : Cache β) :
    Beside load c₀ c₀' c₀ c₀' :=
  ⟨[], rfl, rfl⟩

/- Faithful memories answer alike. -/
theorem serves
    (hFirst : c₀.Faithful load)
    (hSecond : c₀'.Faithful load) :
    Serves load (Beside load c₀ c₀') := by
  rintro name _ _ ⟨names, rfl, rfl⟩
  rw [(hFirst.lookAll names).getOrLoad_fst,
    (hSecond.lookAll names).getOrLoad_fst]
  exact ⟨rfl, names ++ [name], lookAll_concat names |>.symm,
    lookAll_concat names |>.symm⟩

/- What is asked of the empty memory makes up for the lookups. -/
theorem eq_lookAll
    (hFaithful : c₀'.Faithful load)
    (hBeside : Beside load .empty c₀' c c') :
    c' = c₀'.lookAll load c.requests.reverse := by
  rcases hBeside with ⟨names, rfl, rfl⟩
  exact (hFaithful.lookAll_requests names).symm

end Beside

end Cache

namespace Memories

/- What is in memory is what loading would give. -/
structure Faithful
    (package : OpenPackage ρ α)
    (m : Memories ρ α) : Prop where
  fonts : m.fonts.Faithful package.loadFont
  profiles : m.profiles.Faithful package.loadProfile
  images :
    ∀ r, (m.images r).Faithful (package.renderer r).loadImage

/- Memories in which the same names have been looked up. -/
structure Beside
    (package : OpenPackage ρ α)
    (m now now' : Memories ρ α) : Prop where
  fonts :
    Cache.Beside package.loadFont .empty m.fonts now.fonts now'.fonts
  profiles :
    Cache.Beside package.loadProfile .empty m.profiles now.profiles
      now'.profiles
  images :
    ∀ r,
      Cache.Beside (package.renderer r).loadImage .empty (m.images r)
        (now.images r) (now'.images r)

variable {package : OpenPackage ρ α} {m : Memories ρ α}

/- Nothing has been looked up. -/
theorem Beside.refl
    (package : OpenPackage ρ α)
    (m : Memories ρ α) :
    Beside package m .empty m where
  fonts := .refl _ _
  profiles := .refl _ _
  images _ := .refl _ _

/- Images have been looked up for one renderer. -/
theorem Beside.update
    [DecidableEq ρ]
    {r : ρ}
    {images images' : Cache (Image α)}
    (hBeside :
      Cache.Beside (package.renderer r).loadImage .empty (m.images r)
        images images')
    (r' : ρ) :
    Cache.Beside (package.renderer r').loadImage .empty (m.images r')
      (Function.update Memories.empty.images r images r')
      (Function.update m.images r images' r') := by
  by_cases hSame : r' = r
  · subst hSame
    rw [Function.update_self, Function.update_self]
    exact hBeside
  · rw [Function.update_of_ne hSame, Function.update_of_ne hSame]
    exact .refl _ _

end Memories

namespace OpenPackage

variable [DecidableEq ρ] [Scalar α]
variable (package : OpenPackage ρ α) {m : Memories ρ α}

omit [DecidableEq ρ] in
/-
  A page is rendered as it is when nothing is in memory, and the
  same names are looked up.
-/
theorem render_beside
    (hFaithful : m.Faithful package)
    (r : ρ) :
    let blank :=
      Page.render (package.environment r) (.start .empty .empty .empty)
    let now :=
      Page.render (package.environment r)
        (.start m.fonts (m.images r) m.profiles)
    now.1 = blank.1 ∧
      now.2.surface = blank.2.surface ∧
      Cache.Beside package.loadFont .empty m.fonts blank.2.fonts
        now.2.fonts ∧
      Cache.Beside package.loadProfile .empty m.profiles
        blank.2.profiles now.2.profiles ∧
      Cache.Beside (package.renderer r).loadImage .empty (m.images r)
        blank.2.images now.2.images := by
  let L : Likeness α :=
    { fonts := Cache.Beside package.loadFont .empty m.fonts
      images :=
        Cache.Beside (package.renderer r).loadImage .empty (m.images r)
      profiles := Cache.Beside package.loadProfile .empty m.profiles
      lax := false }
  have hAdmits :
      L.Admits (package.environment r)
        (package.environment r).options :=
    ⟨Cache.Beside.serves (.empty _) hFaithful.fonts,
      Cache.Beside.serves (.empty _) (hFaithful.images r),
      Cache.Beside.serves (.empty _) hFaithful.profiles, .inl rfl⟩
  have hStates :
      L.Relates (.start .empty .empty .empty)
        (.start m.fonts (m.images r) m.profiles) :=
    ⟨rfl, rfl, rfl, .refl _ _, .refl _ _, .refl _ _, .nil⟩
  rcases (Page.render_agrees hAdmits hStates).of_strict rfl with
    ⟨hResult, hState⟩
  exact
    ⟨hResult, hState.surface, hState.fonts, hState.profiles,
      hState.images⟩

/- A visit answers as it does when nothing is in memory. -/
theorem visit_beside
    (hFaithful : m.Faithful package)
    (v : Visit ρ) :
    (package.visit m v).1 = (package.visit .empty v).1 ∧
      m.Beside package (package.visit .empty v).2
        (package.visit m v).2 := by
  cases v with
  | page r =>
      rcases package.render_beside hFaithful r with
        ⟨hResult, hSurface, hFonts, hProfiles, hImages⟩
      exact
        ⟨congrArg₂ Answer.page hResult hSurface, hFonts, hProfiles,
          Memories.Beside.update hImages⟩
  | font name =>
      have hServes :=
        Cache.Beside.serves (.empty _) hFaithful.fonts name _ _
          (.refl _ _)
      exact
        ⟨congrArg Answer.font hServes.1,
          { Memories.Beside.refl package m with fonts := hServes.2 }⟩
  | profile name =>
      have hServes :=
        Cache.Beside.serves (.empty _) hFaithful.profiles name _ _
          (.refl _ _)
      exact
        ⟨congrArg Answer.profile hServes.1,
          { Memories.Beside.refl package m with
            profiles := hServes.2 }⟩
  | image r name =>
      have hServes :=
        Cache.Beside.serves (.empty _) (hFaithful.images r) name _ _
          (.refl _ _)
      exact
        ⟨congrArg Answer.image hServes.1,
          { Memories.Beside.refl package m with
            images := Memories.Beside.update hServes.2 }⟩

/-
  A visit gives what it gives when nothing is in memory, and it
  looks up what it asks for then.
-/
theorem visit_looks
    (hFaithful : m.Faithful package)
    (v : Visit ρ) :
    let now := package.visit m v
    now.1 = (package.visit .empty v).1 ∧
      now.2.fonts =
        m.fonts.lookAll package.loadFont (package.askedFonts v) ∧
      now.2.profiles =
        m.profiles.lookAll package.loadProfile
          (package.askedProfiles v) ∧
      ∀ r,
        now.2.images r =
          (m.images r).lookAll (package.renderer r).loadImage
            (package.askedImages r v) := by
  rcases package.visit_beside hFaithful v with ⟨hAnswer, hBeside⟩
  exact
    ⟨hAnswer, hBeside.fonts.eq_lookAll hFaithful.fonts,
      hBeside.profiles.eq_lookAll hFaithful.profiles,
      fun r => (hBeside.images r).eq_lookAll (hFaithful.images r)⟩

------------------------------------------------------------
-- Several visits
------------------------------------------------------------

/- Visits leave memories faithful. -/
theorem visit_faithful
    (hFaithful : m.Faithful package)
    (v : Visit ρ) :
    (package.visit m v).2.Faithful package := by
  rcases package.visit_looks hFaithful v with
    ⟨_, hFonts, hProfiles, hImages⟩
  refine ⟨?_, ?_, fun r => ?_⟩
  · rw [hFonts]
    exact hFaithful.fonts.lookAll _
  · rw [hProfiles]
    exact hFaithful.profiles.lookAll _
  · rw [hImages]
    exact (hFaithful.images r).lookAll _

/- Visits look up what each of them would ask for on its own. -/
theorem visitAll_looks
    (hFaithful : m.Faithful package)
    (history : List (Visit ρ)) :
    let now := package.visitAll history m
    now.1 = history.map (fun v => (package.visit .empty v).1) ∧
      now.2.fonts =
        m.fonts.lookAll package.loadFont
          (history.flatMap package.askedFonts) ∧
      now.2.profiles =
        m.profiles.lookAll package.loadProfile
          (history.flatMap package.askedProfiles) ∧
      ∀ r,
        now.2.images r =
          (m.images r).lookAll (package.renderer r).loadImage
            (history.flatMap (package.askedImages r)) := by
  induction history generalizing m with
  | nil => exact ⟨rfl, rfl, rfl, fun _ => rfl⟩
  | cons v history ih =>
      rcases package.visit_looks hFaithful v with
        ⟨hAnswer, hFonts, hProfiles, hImages⟩
      rcases ih (package.visit_faithful hFaithful v) with
        ⟨hAnswers, hLaterFonts, hLaterProfiles, hLaterImages⟩
      refine
        ⟨congrArg₂ List.cons hAnswer hAnswers, hLaterFonts.trans ?_,
          hLaterProfiles.trans ?_, fun r => (hLaterImages r).trans ?_⟩
      · rw [hFonts, List.flatMap_cons, Cache.lookAll_append]
      · rw [hProfiles, List.flatMap_cons, Cache.lookAll_append]
      · rw [hImages, List.flatMap_cons, Cache.lookAll_append]

/-
  However many pages are rendered and names are looked up from a
  package, in any order: every answer, the result and the surface
  of a page included, is the one that is given when nothing is in
  memory; and of the names that were looked up, each memory knows
  those that were answered. It has asked for them once, and again
  and again for those that failed.
-/
theorem visitAll_transparent
    (history : List (Visit ρ)) :
    let now := package.visitAll history .empty
    now.1 = history.map (fun v => (package.visit .empty v).1) ∧
      now.2.fonts.Remembers package.loadFont
        (history.flatMap package.askedFonts) ∧
      now.2.profiles.Remembers package.loadProfile
        (history.flatMap package.askedProfiles) ∧
      ∀ r,
        (now.2.images r).Remembers (package.renderer r).loadImage
          (history.flatMap (package.askedImages r)) := by
  have hEmpty : Memories.empty.Faithful package :=
    ⟨.empty _, .empty _, fun _ => .empty _⟩
  rcases package.visitAll_looks hEmpty history with
    ⟨hAnswers, hFonts, hProfiles, hImages⟩
  refine ⟨hAnswers, ?_, ?_, fun r => ?_⟩
  · rw [hFonts]
    exact Cache.lookAll_remembers _ _
  · rw [hProfiles]
    exact Cache.lookAll_remembers _ _
  · rw [hImages]
    exact Cache.lookAll_remembers _ _

end OpenPackage

end FixedPage
