import FixedPage.Package.Archive
import FixedPage.Render.Opening.Content

/-
  This file renders pages. A brush that is referred to is read
  from its stored markup, which may hold visual brushes whose
  content refers to brushes again; the limit on nested visual
  brushes bounds how often that can happen.

  Main declarations:
    * `storedBrush`
    * `renderItems`
    * `Page.render`
    * `Page.size`
-/

namespace FixedPage

open Markup

variable {α : Type} [Scalar α]

------------------------------------------------------------
-- Stored brushes
------------------------------------------------------------

/-
  The brush stored under a key, when at most `budget` stored
  brushes may be under way at once.
-/
def storedBrush
    (env : Environment α) : Nat → BrushLookup α
| 0, _ => Action.fail (.nestingTooDeep env.options.maxVisualDepth)
| budget + 1, key => do
    let markup ← Action.resource key
    let handler := startElement env (storedBrush env budget)
    let items := readText env.source markup
    match ← runFragment env handler (.brush none) none items with
    | .pattern pattern? => pure pattern?
    | _ => pure none

/-
  Between a stored brush and one inside it a visual brush is
  under way, so one more than the limit is enough.
-/
def pageBrush
    (env : Environment α) : BrushLookup α :=
  storedBrush env (env.options.maxVisualDepth + 1)

------------------------------------------------------------
-- Rendering
------------------------------------------------------------

/- Renders the events of a page. -/
def renderItems
    (env : Environment α)
    (items : List Item)
    (st : RenderState α) : Except Error Unit × RenderState α :=
  runPart env (startElement env (pageBrush env))
    (.ofPart (.content ⟨none, 0⟩)) st items

namespace Page

omit [Scalar α] in
/- The events of the part that holds the page. -/
def items
    (env : Environment α) : Except Error (List Item) :=
  match env.part? env.source with
  | some content => readBytes env.source content
  | none => .error (.notFound env.source)

/- Renders the page. -/
def render
    (env : Environment α)
    (st : RenderState α) : Except Error Unit × RenderState α :=
  match items env with
  | .ok items => renderItems env items st
  | .error fault => (.error fault, st)

------------------------------------------------------------
-- Size
------------------------------------------------------------

/- Reads a length of at least one. -/
def readLength?
    (value : String) : Option α :=
  (Value.number? value).filter (Scalar.le 1)

/- Width and height of the page that an element starts. -/
def sizeOfRoot
    (e : Element) : Except Error (α × α) :=
  if e.name == "FixedPage" then do
    let width ← e.readRequired "Width" readLength?
    let height ← e.readRequired "Height" readLength?
    pure (width, height)
  else .error e.unknown

/- Width and height of the page. -/
def size
    (env : Environment α) : Except Error (α × α) := do
  match ← items env with
  | [] => .error (.markup ⟨env.source, 1, 1⟩ .emptyPage)
  | .error fault :: _ => .error fault
  | .ok (place, .startTag name attributes) :: _ =>
      sizeOfRoot ⟨place, name, attributes⟩
  | .ok (place, _) :: _ => .error (.markup place .startTagExpected)

end Page

end FixedPage
