import FixedPage.Package.Archive
import FixedPage.Render.Stack
import FixedPage.Resource.Geometry

/-
  This file reads attribute values that may refer to a static
  resource: transformations, geometries, colors and brushes. A
  resource is stored as markup and read when it is referred to.

  Reading a brush may draw, so how a brush is looked up is left
  open.

  Main declarations:
    * `startStored`
    * `loadDictionary`
    * `transformValue`
    * `geometryValue`
    * `colorValue`
    * `BrushLookup`
    * `brushValue`
-/

namespace FixedPage

open Markup

variable {α : Type} [Scalar α]

------------------------------------------------------------
-- Stored elements
------------------------------------------------------------

/- Takes an attribute of a matrix. -/
def takeMatrixAttribute
    (e : Element)
    (m : Matrix α)
    (a : Attribute) : Except Error (Matrix α) :=
  if a.name == "Matrix" then e.read a.name Value.matrix? a.value
  else if a.name == keyAttribute then .ok m
  else .error (e.unknownAttribute a.name)

/- Starts the element that gives a matrix. -/
def startMatrix
    (e : Element)
    (m : Matrix α) : Except Error (Matrix α) :=
  if e.name == "MatrixTransform" then
    e.attributes.foldlM (takeMatrixAttribute e) m
  else .error e.unknown

/- Starts an element inside a dictionary. -/
def startEntry
    (e : Element) :
    Option ResourceEntry → Except Error (Option ResourceEntry)
| some entry => .ok (some (entry.startChild e.name e.attributes))
| none => do
    let key ← e.required keyAttribute
    pure (some (.begin key e.name e.attributes))

/-
  Starts an element inside a frame that draws nothing: a matrix
  or a dictionary. Other frames know no elements here.
-/
def startStored : StartHandler α := fun frame e =>
  match frame with
  | .matrix m => do
      let m ← Action.ofExcept (startMatrix e m)
      pure (.matrix m, none)
  | .dictionary current? => do
      let current? ← Action.ofExcept (startEntry e current?)
      pure (.dictionary current?, none)
  | _ => Action.fail e.unknown

------------------------------------------------------------
-- Resources
------------------------------------------------------------

omit [Scalar α] in
/- Markup stored under a key. -/
def Action.resource
    (key : String) : Action α String :=
  Action.ofEffect fun st =>
    match st.scope.get? key with
    | some markup => (.ok markup, st)
    | none => (.error (.notFound key), st)

/- The matrix stored under a key. -/
def storedTransform
    (env : Environment α)
    (key : String) : Action α (Matrix α) := do
  let markup ← Action.resource key
  let items := readText env.source markup
  match ← runFragment env startStored (.matrix .identity) none items with
  | .matrix m => pure m
  | _ => pure .identity

/- Adds the entries of a dictionary that has a part of its own. -/
def loadDictionary
    (env : Environment α)
    (source : String) : Action α Unit := do
  let name := PartName.resolve env.source (Text.trimString source)
  match env.part? name with
  | none => Action.fail (.notFound name)
  | some content => do
      let items ← Action.ofExcept (readBytes name content)
      let _ ←
        runFragment env startStored (.dictionary none)
          (some "ResourceDictionary") items
      pure ()

------------------------------------------------------------
-- Values
------------------------------------------------------------

/- Reads a matrix or a reference to one. -/
def transformValue
    (env : Environment α)
    (e : Element)
    (name value : String) : Action α (Matrix α) :=
  match Value.resourceKey? value with
  | some key => storedTransform env key
  | none => Action.ofExcept (e.read name Value.matrix? value)

/- Reads path data or a reference to a geometry. -/
def geometryValue
    (env : Environment α)
    (value : String) : Action α String :=
  match Value.resourceKey? value with
  | some key => do
      let markup ← Action.resource key
      Action.ofExcept (Geometry.pathData α env.source markup)
  | none => pure value

omit [Scalar α] in
/- What the color profiles of a page are loaded from. -/
def Environment.profileSource
    (env : Environment α) : ProfileSource α :=
  ⟨env.source, env.part?, env.readProfile⟩

/- Reads a color; there is none when it cannot be converted. -/
def colorValue
    (env : Environment α)
    (e : Element)
    (name value : String) : Action α (Option (Color α)) :=
  Action.ofEffect fun st =>
    let (resolved, profiles) :=
      ColorLiteral.resolve (some env.profileSource) value st.profiles
    let st := { st with profiles := profiles }
    match resolved with
    | .ok color => (.ok (some color), st)
    | .error (.malformed _) => (.error (e.invalid name value), st)
    | .error (.unsupported _) => (.ok none, st)

/- How the brush that is stored under a key is found. -/
abbrev BrushLookup (α : Type) : Type :=
  String → Action α (Option (Pattern α))

/- Reads a color or a reference to a brush. -/
def brushValue
    (env : Environment α)
    (lookup : BrushLookup α)
    (e : Element)
    (name value : String) : Action α (Option (Pattern α)) :=
  match Value.resourceKey? value with
  | some key => lookup key
  | none => do
      let color? ← colorValue env e name value
      pure (color?.map Pattern.solid)

end FixedPage
