import FixedPage.Proofs.Memory.Lookup
import FixedPage.Proofs.Render.Effect
import FixedPage.Proofs.Surface.Raised
import FixedPage.Render.Reference

/-
  This file compares two states in which the same elements are
  rendered, and two actions that do the same in such states. The
  actions may read their elements at different places, so their
  errors agree up to the place.

  Main declarations:
    * `Error.unplaced`
    * `Except.Alike`
    * `Cache.Alike`
    * `Frame.raise`
    * `RenderState.Follows`
    * `Action.Mirrors`
-/

namespace FixedPage

open Markup

variable {α : Type}

------------------------------------------------------------
-- Errors
------------------------------------------------------------

/- A place in no part. -/
def Location.nowhere : Location :=
  ⟨"", 0, 0⟩

namespace Error

/- An error without the place where it was found. -/
def unplaced : Error → Error
| .unknownElement _ element => .unknownElement .nowhere element
| .unknownAttribute _ element name =>
    .unknownAttribute .nowhere element name
| .missingAttribute _ element name =>
    .missingAttribute .nowhere element name
| .invalidContent _ element name content =>
    .invalidContent .nowhere element name content
| .markup _ fault => .markup .nowhere fault
| fault => fault

end Error

/-
  Two results agree: the second value is the image of the first
  one, or both are errors that agree up to their places.
-/
inductive Except.Alike
    {β γ : Type}
    (f : β → γ) :
    Except Error β → Except Error γ → Prop
| ok
    (b : β) :
    Alike f (.ok b) (.ok (f b))
| error
    {fault fault' : Error}
    (hFault : fault'.unplaced = fault.unplaced) :
    Alike f (.error fault) (.error fault')

namespace Except.Alike

variable {β γ δ ε : Type} {f : β → γ} {g : δ → ε}

theorem refl
    (x : Except Error β) :
    Alike id x x := by
  cases x with
  | ok b => exact .ok b
  | error fault => exact .error rfl

theorem pure
    {b : β}
    {c : γ}
    (hValue : c = f b) :
    Alike f (Pure.pure b) (Pure.pure c) := by
  rw [hValue]
  exact .ok b

theorem bind
    {x : Except Error β}
    {x' : Except Error γ}
    {h : β → Except Error δ}
    {h' : γ → Except Error ε}
    (hFirst : Alike f x x')
    (hNext : ∀ b, Alike g (h b) (h' (f b))) :
    Alike g (x >>= h) (x' >>= h') := by
  cases hFirst with
  | ok b => exact hNext b
  | error hFault => exact .error hFault

theorem map
    {x : Except Error β}
    {x' : Except Error γ}
    {h : β → δ}
    {h' : γ → ε}
    (hFirst : Alike f x x')
    (hNext : ∀ b, h' (f b) = g (h b)) :
    Alike g (x.map h) (x'.map h') := by
  cases hFirst with
  | ok b =>
      have hOk := Alike.ok (f := g) (h b)
      rwa [← hNext b] at hOk
  | error hFault => exact .error hFault

theorem foldlM
    {ι : Type}
    {take : β → ι → Except Error β}
    {take' : γ → ι → Except Error γ}
    (hTake : ∀ b i, Alike f (take b i) (take' (f b) i))
    (b : β)
    (is : List ι) :
    Alike f (is.foldlM take b) (is.foldlM take' (f b)) := by
  induction is generalizing b with
  | nil => exact .ok b
  | cons i is ih =>
      rw [List.foldlM_cons, List.foldlM_cons]
      exact (hTake b i).bind ih

end Except.Alike

------------------------------------------------------------
-- Elements
------------------------------------------------------------

namespace Element

variable {β : Type} (e : Element) (place : Location)

/- The same element at another place. -/
def moved : Element :=
  { e with place := place }

/- An element that is not moved. -/
@[simp] theorem moved_place :
    e.moved e.place = e :=
  rfl

@[simp] theorem name_moved :
    (e.moved place).name = e.name :=
  rfl

@[simp] theorem attributes_moved :
    (e.moved place).attributes = e.attributes :=
  rfl

@[simp] theorem value?_moved
    (name : String) :
    (e.moved place).value? name = e.value? name :=
  rfl

theorem required_moved
    (name : String) :
    Except.Alike id (e.required name)
      ((e.moved place).required name) := by
  unfold required
  rw [value?_moved]
  cases e.value? name with
  | some value => exact .ok value
  | none => exact .error rfl

theorem read_moved
    (name : String)
    (grammar : String → Option β)
    (value : String) :
    Except.Alike id (e.read name grammar value)
      ((e.moved place).read name grammar value) := by
  unfold Element.read
  cases grammar value with
  | some result => exact .ok result
  | none => exact .error rfl

theorem readRequired_moved
    (name : String)
    (grammar : String → Option β) :
    Except.Alike id (e.readRequired name grammar)
      ((e.moved place).readRequired name grammar) :=
  (e.required_moved place name).bind
    fun value => e.read_moved place name grammar value

end Element

------------------------------------------------------------
-- Caches
------------------------------------------------------------

namespace Cache

variable {ε β : Type}

/-
  Two caches give the same values, since they are the same or
  since both hold only what loading would give.
-/
def Alike
    (same : Bool)
    (load : String → Except ε β)
    (c c' : Cache β) : Prop :=
  if same then c' = c else c.Faithful load ∧ c'.Faithful load

/- Caches that are alike give the same values and stay alike. -/
theorem Alike.serves
    (same : Bool)
    (load : String → Except ε β) :
    Serves load (Alike same load) := by
  intro name c c' hAlike
  cases same with
  | true =>
      change c' = c at hAlike
      rw [hAlike]
      exact ⟨rfl, rfl⟩
  | false =>
      rcases hAlike with ⟨hFirst, hSecond⟩
      rw [hFirst.getOrLoad_fst, hSecond.getOrLoad_fst]
      exact
        ⟨rfl, hFirst.getOrLoad_snd name, hSecond.getOrLoad_snd name⟩

end Cache

------------------------------------------------------------
-- Frames
------------------------------------------------------------

/- Raises the group numbers in the patterns of a path. -/
def PathState.raise
    (k : Nat)
    (state : PathState α) : PathState α :=
  { state with
    fill? := state.fill?.map (Pattern.raise k)
    stroke? := state.stroke?.map (Pattern.raise k)
    mask? := state.mask?.map (Pattern.raise k) }

/- Raises the group numbers in the patterns of a glyph run. -/
def GlyphRun.raise
    (k : Nat)
    (run : GlyphRun α) : GlyphRun α :=
  { run with
    fill? := run.fill?.map (Pattern.raise k)
    mask? := run.mask?.map (Pattern.raise k) }

/- Raises the group number in the mask of a canvas. -/
def CanvasFrame.raise
    (k : Nat)
    (f : CanvasFrame α) : CanvasFrame α :=
  { f with mask? := f.mask?.map (Pattern.raise k) }

/- Raises the group numbers in the patterns of a path. -/
def PathFrame.raise
    (k : Nat)
    (f : PathFrame α) : PathFrame α :=
  { f with state := f.state.raise k }

/- Raises the group numbers in the patterns of a geometry. -/
def GeometryFrame.raise
    (k : Nat)
    (f : GeometryFrame α) : GeometryFrame α :=
  { f with state := f.state.raise k }

/- Raises the group numbers in the patterns of a glyph run. -/
def GlyphsFrame.raise
    (k : Nat)
    (f : GlyphsFrame α) : GlyphsFrame α :=
  { f with run := f.run.raise k }

/- Raises the group numbers in the patterns of a frame. -/
def Frame.raise
    (k : Nat) : Frame α → Frame α
| .canvas f => .canvas (f.raise k)
| .path f => .path (f.raise k)
| .geometry f => .geometry (f.raise k)
| .brush pattern? => .brush (pattern?.map (Pattern.raise k))
| .glyphs f => .glyphs (f.raise k)
| frame => frame

/- Raises the group numbers in the patterns of a product. -/
def Product.raise
    (k : Nat) : Product α → Product α
| .pattern pattern? => .pattern (pattern?.map (Pattern.raise k))
| .path state => .path (state.raise k)
| product => product

/- Raises the group numbers in a frame and the one on it. -/
def Frame.raiseBoth
    (k : Nat)
    (frames : Frame α × Option (Frame α)) :
    Frame α × Option (Frame α) :=
  (frames.1.raise k, frames.2.map (Frame.raise k))

/- A frame stays as it is when no number is raised. -/
@[simp] theorem Frame.raise_zero
    (frame : Frame α) :
    frame.raise 0 = frame := by
  cases frame <;>
    simp [raise, CanvasFrame.raise, PathFrame.raise,
      GeometryFrame.raise, GlyphsFrame.raise, PathState.raise,
      GlyphRun.raise, Pattern.raise_zero_eq_id]

------------------------------------------------------------
-- States
------------------------------------------------------------

/- A package without parts in which nothing can be loaded. -/
def Environment.empty : Environment α where
  source := "page"
  part? _ := none
  loadFont name := .error (.notFound name)
  loadImage name := .error (.notFound name)
  readProfile _ := .error ""
  options := .standard

/-
  The second state is ahead of the first one by what was drawn
  before; what rendering depends on is the same in both.
-/
structure RenderState.Follows
    (env : Environment α)
    (d : Shift α)
    (same : Bool)
    (st st' : RenderState α) : Prop where
  surface : st'.surface = st.surface.raise d
  scope : st'.scope = st.scope
  visualDepth : st'.visualDepth = st.visualDepth
  fonts : Cache.Alike same env.loadFont st.fonts st'.fonts
  images : Cache.Alike same env.loadImage st.images st'.images
  profiles :
    Cache.Alike same env.profileSource.load st.profiles st'.profiles

namespace RenderState.Follows

variable {env : Environment α} {d : Shift α} {same : Bool}
variable {st st' : RenderState α}

/- The second surface is as far ahead afterwards. -/
theorem resurface
    {s s' : Surface α}
    (hFollows : st.Follows env d same st')
    (hSurface : s' = s.raise d) :
    Follows env d same { st with surface := s }
      { st' with surface := s' } where
  surface := hSurface
  scope := hFollows.scope
  visualDepth := hFollows.visualDepth
  fonts := hFollows.fonts
  images := hFollows.images
  profiles := hFollows.profiles

/- Drawing the same leaves one state as far ahead as before. -/
theorem draw
    {f f' : Surface α → Surface α}
    (hFollows : st.Follows env d same st')
    (hDraw : Surface.Raises d f f') :
    (st.draw f).Follows env d same (st'.draw f') := by
  apply hFollows.resurface
  rw [hFollows.surface, hDraw]

/- The same dictionaries are in scope afterwards. -/
theorem rescope
    {scope scope' : ResourceScope}
    (hFollows : st.Follows env d same st')
    (hScope : scope' = scope) :
    Follows env d same { st with scope := scope }
      { st' with scope := scope' } where
  surface := hFollows.surface
  scope := hScope
  visualDepth := hFollows.visualDepth
  fonts := hFollows.fonts
  images := hFollows.images
  profiles := hFollows.profiles

/- As many visual brushes are under way afterwards. -/
theorem redepth
    {n n' : Nat}
    (hFollows : st.Follows env d same st')
    (hDepth : n' = n) :
    Follows env d same { st with visualDepth := n }
      { st' with visualDepth := n' } where
  surface := hFollows.surface
  scope := hFollows.scope
  visualDepth := hDepth
  fonts := hFollows.fonts
  images := hFollows.images
  profiles := hFollows.profiles

/- The same dictionaries are closed in both states. -/
theorem popDictionaries
    (hFollows : st.Follows env d same st')
    (n : Nat) :
    (st.popDictionaries n).Follows env d same
      (st'.popDictionaries n) :=
  hFollows.rescope (by rw [hFollows.scope])

/- States that are not ahead with the same caches are the same. -/
theorem eq
    (hFollows : st.Follows env .zero true st') :
    st' = st := by
  rcases st with ⟨surface, scope, visualDepth, fonts, images, profiles⟩
  rcases st' with
    ⟨surface', scope', visualDepth', fonts', images', profiles'⟩
  have hSurface : surface' = surface := by
    rw [← surface.raise_zero]
    exact hFollows.surface
  have hScope : scope' = scope := hFollows.scope
  have hDepth : visualDepth' = visualDepth := hFollows.visualDepth
  have hFonts : fonts' = fonts := hFollows.fonts
  have hImages : images' = images := hFollows.images
  have hProfiles : profiles' = profiles := hFollows.profiles
  rw [hSurface, hScope, hDepth, hFonts, hImages, hProfiles]

/- A state is not ahead of itself. -/
theorem refl
    (env : Environment α)
    (st : RenderState α) :
    st.Follows env .zero true st where
  surface := st.surface.raise_zero.symm
  scope := rfl
  visualDepth := rfl
  fonts := rfl
  images := rfl
  profiles := rfl

end RenderState.Follows

------------------------------------------------------------
-- Actions
------------------------------------------------------------

namespace Action

variable {β γ δ ε : Type}

/-
  In a state that is ahead, the second action does what the
  first one does, and the state stays as far ahead.
-/
def Mirrors
    (env : Environment α)
    (d : Shift α)
    (same : Bool)
    (f : β → γ)
    (x : Action α β)
    (x' : Action α γ) : Prop :=
  ∀ st st', st.Follows env d same st' →
    Except.Alike f (x.perform st).1 (x'.perform st').1 ∧
      (x.perform st).2.Follows env d same (x'.perform st').2

namespace Mirrors

variable {env : Environment α} {d : Shift α} {same : Bool}
variable {f : β → γ} {g : δ → ε}

theorem pure
    {b : β}
    {c : γ}
    (hValue : c = f b) :
    Mirrors env d same f (Pure.pure b) (Pure.pure c) :=
  fun _ _ hFollows => ⟨.pure hValue, hFollows⟩

theorem fail
    {fault fault' : Error}
    (hFault : fault'.unplaced = fault.unplaced) :
    Mirrors env d same f (fail fault) (fail fault') :=
  fun _ _ hFollows => ⟨.error hFault, hFollows⟩

theorem ofExcept
    {x : Except Error β}
    {x' : Except Error γ}
    (hAlike : Except.Alike f x x') :
    Mirrors env d same f (ofExcept x) (ofExcept x') :=
  fun _ _ hFollows => ⟨hAlike, hFollows⟩

theorem draw
    {h h' : Surface α → Surface α}
    (hDraw : Surface.Raises d h h') :
    Mirrors env d same id (draw h) (draw h') :=
  fun _ _ hFollows => ⟨.ok (), hFollows.draw hDraw⟩

theorem bind
    {x : Action α β}
    {x' : Action α γ}
    {h : β → Action α δ}
    {h' : γ → Action α ε}
    (hFirst : Mirrors env d same f x x')
    (hNext : ∀ b, Mirrors env d same g (h b) (h' (f b))) :
    Mirrors env d same g (x >>= h) (x' >>= h') := by
  intro st st' hFollows
  rcases hFirst st st' hFollows with ⟨hResult, hState⟩
  rw [perform_bind, perform_bind]
  generalize x.perform st = outcome at hResult hState ⊢
  generalize x'.perform st' = outcome' at hResult hState ⊢
  rcases outcome with ⟨result, mid⟩
  rcases outcome' with ⟨result', mid'⟩
  cases hResult with
  | ok b => exact hNext b mid mid' hState
  | error hFault => exact ⟨.error hFault, hState⟩

/- A value that is used without further actions. -/
theorem thenPure
    {x : Action α β}
    {x' : Action α γ}
    {h : β → δ}
    {h' : γ → ε}
    (hFirst : Mirrors env d same f x x')
    (hNext : ∀ b, h' (f b) = g (h b)) :
    Mirrors env d same g (x >>= fun b => Pure.pure (h b))
      (x' >>= fun c => Pure.pure (h' c)) :=
  hFirst.bind fun b => pure (hNext b)

theorem onError
    {x : Action α β}
    {x' : Action α γ}
    {undo undo' : RenderState α → RenderState α}
    (hTry : Mirrors env d same f x x')
    (hUndo :
      ∀ st st', st.Follows env d same st' →
        (undo st).Follows env d same (undo' st')) :
    Mirrors env d same f (x.onError undo) (x'.onError undo') := by
  intro st st' hFollows
  rcases hTry st st' hFollows with ⟨hResult, hState⟩
  rw [perform_onError, perform_onError]
  generalize x.perform st = outcome at hResult hState ⊢
  generalize x'.perform st' = outcome' at hResult hState ⊢
  rcases outcome with ⟨result, mid⟩
  rcases outcome' with ⟨result', mid'⟩
  cases hResult with
  | ok b => exact ⟨.ok b, hState⟩
  | error hFault => exact ⟨.error hFault, hUndo mid mid' hState⟩

theorem foldlM
    {ι : Type}
    {take : β → ι → Action α β}
    {take' : γ → ι → Action α γ}
    (hTake : ∀ b i, Mirrors env d same f (take b i) (take' (f b) i))
    (b : β)
    {c : γ}
    (hStart : c = f b)
    (is : List ι) :
    Mirrors env d same f (is.foldlM take b) (is.foldlM take' c) := by
  rw [hStart]
  clear hStart
  induction is generalizing b with
  | nil => exact pure rfl
  | cons i is ih =>
      rw [List.foldlM_cons, List.foldlM_cons]
      exact (hTake b i).bind ih

/- An action that succeeds in one state does so in the other. -/
theorem perform_ok
    {x : Action α β}
    {x' : Action α γ}
    {b : β}
    {st st' mid : RenderState α}
    (hMirrors : Mirrors env d same f x x')
    (hFollows : st.Follows env d same st')
    (hOk : x.perform st = (.ok b, mid)) :
    ∃ mid',
      x'.perform st' = (.ok (f b), mid') ∧
        mid.Follows env d same mid' := by
  rcases hMirrors st st' hFollows with ⟨hResult, hState⟩
  rw [hOk] at hResult hState
  generalize x'.perform st' = outcome at hResult hState
  rcases outcome with ⟨result, mid'⟩
  cases hResult
  exact ⟨mid', rfl, hState⟩

end Mirrors

end Action

end FixedPage
