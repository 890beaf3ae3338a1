import FixedPage.Error
import FixedPage.Paint.Literal
import FixedPage.Resource.Scope
import FixedPage.Surface.Recording

/-
  This file defines what page rendering depends on and what it
  changes. An action may fail; what it changed until then stays
  changed.

  Main declarations:
    * `Options`
    * `Environment`
    * `RenderState`
    * `Action`
    * `Action.draw`
    * `Action.onError`
-/

namespace FixedPage

/- How strictly and how deeply pages are rendered. -/
structure Options where
  maxVisualDepth : Nat
  strict : Bool
deriving DecidableEq, Repr

/- The options of a page that asks for none. -/
def Options.standard : Options :=
  ⟨32, false⟩

/-
  What a page takes from outside: its own name, the parts of its
  package, and readers for fonts, images and color profiles.
-/
structure Environment (α : Type) where
  source : String
  part? : String → Option (List UInt8)
  loadFont : String → Except Error (Font α)
  loadImage : String → Except Error (Image α)
  readProfile : List UInt8 → Except String (ColorProfile α)
  options : Options

/-
  What rendering changes: the surface, the dictionaries in
  scope, the number of visual brushes under way, and the
  memories of what was loaded.
-/
structure RenderState (α : Type) where
  surface : Surface α
  scope : ResourceScope
  visualDepth : Nat
  fonts : Cache (Font α)
  images : Cache (Image α)
  profiles : ProfileCache α

namespace RenderState

variable {α : Type}

/-
  The state before a page is drawn, with the fonts, images and
  profiles that other pages have left in memory.
-/
def start
    [Scalar α]
    (fonts : Cache (Font α))
    (images : Cache (Image α))
    (profiles : ProfileCache α) : RenderState α :=
  ⟨.blank, .empty, 0, fonts, images, profiles⟩

/- Draws on the surface. -/
def draw
    (f : Surface α → Surface α)
    (st : RenderState α) : RenderState α :=
  { st with surface := f st.surface }

/- Closes some dictionaries. -/
def popDictionaries
    (n : Nat)
    (st : RenderState α) : RenderState α :=
  { st with scope := st.scope.popMany n }

end RenderState

------------------------------------------------------------
-- Actions
------------------------------------------------------------

/- A step of rendering that may fail. -/
abbrev Action (α β : Type) : Type :=
  ExceptT Error (StateM (RenderState α)) β

namespace Action

variable {α β : Type}

/- Performs an action. -/
def perform
    (x : Action α β)
    (st : RenderState α) : Except Error β × RenderState α :=
  (ExceptT.run x).run st

/- Makes an action of its effect. -/
def ofEffect
    (f : RenderState α → Except Error β × RenderState α) :
    Action α β :=
  ExceptT.mk f

/- Changes the state. -/
def change
    (f : RenderState α → RenderState α) : Action α Unit :=
  ofEffect fun st => (.ok (), f st)

/- Draws on the surface. -/
def draw
    (f : Surface α → Surface α) : Action α Unit :=
  change (RenderState.draw f)

/- Fails. -/
def fail
    (fault : Error) : Action α β :=
  ofEffect fun st => (.error fault, st)

/- Goes on with a result, unless it is a failure. -/
def ofExcept
    (x : Except Error β) : Action α β :=
  ofEffect fun st => (x, st)

/- Changes the state once more if an action fails. -/
def onError
    (x : Action α β)
    (undo : RenderState α → RenderState α) : Action α β :=
  ofEffect fun st =>
    match perform x st with
    | (.ok result, st) => (.ok result, st)
    | (.error fault, st) => (.error fault, undo st)

end Action

------------------------------------------------------------
-- Path data
------------------------------------------------------------

section

variable {α : Type} [Scalar α]

/- Draws path data up to its end or its fault. -/
def drawData
    (data : String) : Action α Unit :=
  Action.ofEffect fun st =>
    let (fault?, surface) := st.surface.drawData data
    let st := { st with surface := surface }
    match fault? with
    | none => (.ok (), st)
    | some fault => (.error (.pathData fault), st)

/- Narrows the clip to a path given by its data. -/
def clipTo
    (data : String) : Action α Unit := do
  Action.draw Surface.newPath
  drawData data
  Action.draw Surface.clip

/- Narrows the clip if there is something to narrow it to. -/
def clipToAny
    (data? : Option String) : Action α Unit :=
  match data? with
  | none => pure ()
  | some data => clipTo data

end

end FixedPage
