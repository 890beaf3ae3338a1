import FixedPage.Proofs.Parallel.Closing
import FixedPage.Proofs.Paint.Literal
import FixedPage.Proofs.Resource.Inline
import FixedPage.Render.Page

/-
  This file says where the colors of a page come from. The events
  that rendering may come to are those of the page, those of the
  dictionaries with a part of their own, and those of the entries
  of dictionaries, read again from what was recorded. A color is
  resolved from an attribute of one of them, and may have been
  multiplied by the opacity that another attribute gives.

  The state of rendering is sound when the colors on the surface
  come from there, the markup in scope has been recorded, and the
  profiles in memory convert inks into range. Actions that keep it
  sound may give results of which a property holds.

  Main declarations:
    * `Offered`
    * `Recorded`
    * `Dyed`
    * `Faded`
    * `Tinted`
    * `Tinted.inUnit`
    * `Operation.colors`
    * `RenderState.Sound`
    * `Action.Meets`
-/

namespace FixedPage

open Markup

variable {α : Type}

------------------------------------------------------------
-- Events
------------------------------------------------------------

mutual

/- The events that rendering a page may come to. -/
inductive Offered
    (env : Environment α) : Event → Prop
| page
    {items : List Item}
    {place : Location}
    {event : Event}
    (hItems : Page.items env = .ok items)
    (hMem : .ok (place, event) ∈ items) :
    Offered env event
| part
    {e : Element}
    {source name : String}
    {content : List UInt8}
    {items : List Item}
    {place : Location}
    {event : Event}
    (hTag : Offered env (.startTag e.name e.attributes))
    (hElement : e.name = "ResourceDictionary")
    (hSource : e.value? "Source" = some source)
    (hName : name = PartName.resolve env.source (Text.trimString source))
    (hPart : env.part? name = some content)
    (hItems : readBytes name content = .ok items)
    (hMem : .ok (place, event) ∈ items) :
    Offered env event
| stored
    {entry : ResourceEntry}
    {place : Location}
    {event : Event}
    (hEntry : Recorded env entry)
    (hMem : .ok (place, event) ∈ readText env.source entry.markup) :
    Offered env event

/- An entry of a dictionary is recorded from such events. -/
inductive Recorded
    (env : Environment α) : ResourceEntry → Prop
| begin
    {e : Element}
    {key : String}
    (hTag : Offered env (.startTag e.name e.attributes))
    (hKey : e.value? keyAttribute = some key) :
    Recorded env (.begin key e.name e.attributes)
| startChild
    {entry : ResourceEntry}
    {name : String}
    {attributes : List Attribute}
    (hEntry : Recorded env entry)
    (hTag : Offered env (.startTag name attributes)) :
    Recorded env (entry.startChild name attributes)
| endElement
    {entry entry' : ResourceEntry}
    {name : String}
    (hEntry : Recorded env entry)
    (hTag : Offered env (.endTag name))
    (hEnd : entry.endElement? name = some entry') :
    Recorded env entry'

end

/- An attribute of an element that rendering may come to. -/
def Given
    (env : Environment α)
    (a : Attribute) : Prop :=
  ∃ name attributes,
    Offered env (.startTag name attributes) ∧ a ∈ attributes

/- The attributes of an element that is offered are given. -/
theorem Given.of_element
    {env : Environment α}
    {e : Element}
    {a : Attribute}
    (hTag : Offered env (.startTag e.name e.attributes))
    (hMem : a ∈ e.attributes) :
    Given env a :=
  ⟨e.name, e.attributes, hTag, hMem⟩

/- A value that an element cannot do without is given. -/
theorem Given.of_required
    {env : Environment α}
    {e : Element}
    {name value : String}
    (hTag : Offered env (.startTag e.name e.attributes))
    (hRequired : e.required name = .ok value) :
    Given env ⟨name, value⟩ := by
  have hValue := Element.of_required hRequired
  unfold valueOf? at hValue
  rcases Option.map_eq_some_iff.mp hValue with ⟨a, hFound, rfl⟩
  have hName : a.name = name := by
    simpa using List.find?_some hFound
  subst hName
  exact .of_element hTag (List.mem_of_find?_eq_some hFound)

------------------------------------------------------------
-- Colors
------------------------------------------------------------

variable [Scalar α]

/- The attributes that hold color literals. -/
def colorAttributes : List String :=
  ["Color", "Fill", "Stroke", "OpacityMask"]

/- A color is what a literal that is given is resolved to. -/
structure Dyed
    (env : Environment α)
    (literal : String)
    (color : Color α) : Prop where
  given :
    ∃ name ∈ colorAttributes, Given env ⟨name, literal⟩
  resolved :
    ∃ profiles,
      HoldsUnit profiles ∧
        (ColorLiteral.resolve (some env.profileSource) literal
          profiles).1 = .ok color

/- An opacity is given, or none is and it is one. -/
def Faded
    (env : Environment α)
    (opacity : α) : Prop :=
  opacity = 1 ∨
    ∃ value,
      Given env ⟨"Opacity", value⟩ ∧
        Value.number? value = some opacity

/-
  A color that is painted with is resolved from a literal, maybe
  with an opacity.
-/
inductive Tinted
    (env : Environment α) : Color α → Prop
| plain
    {literal : String}
    {color : Color α}
    (hDyed : Dyed env literal color) :
    Tinted env color
| faded
    {literal : String}
    {color : Color α}
    {opacity : α}
    (hDyed : Dyed env literal color)
    (hFaded : Faded env opacity) :
    Tinted env (color.withOpacity opacity)

section

variable [OrderedScalar α] {env : Environment α}
variable (hReads : ReadsUnit env.readProfile)

include hReads

omit [OrderedScalar α] in
/- What profiles are read from converts inks into range. -/
theorem Environment.profileSource_readsUnit :
    ∀ source ∈ some env.profileSource, ReadsUnit source.read := by
  rintro _ ⟨⟩
  exact hReads

/- A resolved color is in range if its literal has only numbers. -/
theorem Dyed.inUnit_iff
    {literal : String}
    {color : Color α}
    (hDyed : Dyed env literal color) :
    color.InUnit ↔ ColorLiteral.OfNumbers literal := by
  rcases hDyed.resolved with ⟨profiles, hHolds, hOk⟩
  exact
    ColorLiteral.resolve_inUnit hHolds
      (Environment.profileSource_readsUnit hReads) hOk

/-
  With an opacity, the opacity of the color has to be in range after
  the multiplication as well.
-/
theorem Dyed.withOpacity_inUnit_iff
    {literal : String}
    {color : Color α}
    (hDyed : Dyed env literal color)
    (opacity : α) :
    (color.withOpacity opacity).InUnit ↔
      ColorLiteral.OfNumbers literal ∧
        Scalar.InUnit (color.alpha * opacity) := by
  rcases hDyed.resolved with ⟨profiles, hHolds, hOk⟩
  have hAlpha :=
    ColorLiteral.resolve_alpha hHolds
      (Environment.profileSource_readsUnit hReads) hOk
  rw [Color.withOpacity_inUnit hAlpha, hDyed.inUnit_iff hReads]

/-
  Colors are in range where all literals have only numbers and all
  opacities are in range.
-/
theorem Tinted.inUnit
    {color : Color α}
    (hTinted : Tinted env color)
    (hNumbers :
      ∀ name ∈ colorAttributes, ∀ literal,
        Given env ⟨name, literal⟩ → ColorLiteral.OfNumbers literal)
    (hOpacity : ∀ opacity : α, Faded env opacity → Scalar.InUnit opacity) :
    color.InUnit := by
  have hBase
      {literal : String}
      {color : Color α}
      (hDyed : Dyed env literal color) :
      ColorLiteral.OfNumbers literal := by
    rcases hDyed.given with ⟨name, hName, hGiven⟩
    exact hNumbers name hName literal hGiven
  cases hTinted with
  | plain hDyed => exact (hDyed.inUnit_iff hReads).mpr (hBase hDyed)
  | faded hDyed hFaded =>
      have hUnit := (hDyed.inUnit_iff hReads).mpr (hBase hDyed)
      rw [hDyed.withOpacity_inUnit_iff hReads]
      exact
        ⟨hBase hDyed,
          OrderedScalar.inUnit_mul _ _ hUnit.alpha
            (hOpacity _ hFaded)⟩

end

------------------------------------------------------------
-- Patterns
------------------------------------------------------------

/- The colors that a pattern shows. -/
def PatternKind.colors : PatternKind α → List (Color α)
| .solid color => [color]
| .linear _ _ stops => stops.map GradientStop.color
| .radial _ _ _ _ stops => stops.map GradientStop.color
| _ => []

/- The colors of the patterns that an operation paints with. -/
def Operation.colors
    (op : Operation α) : List (Color α) :=
  op.patterns.flatMap fun p => p.kind.colors

/- Some patterns show only colors that are tinted. -/
def AllTinted
    (env : Environment α)
    (patterns : List (Pattern α)) : Prop :=
  ∀ p ∈ patterns, ∀ color ∈ p.kind.colors, Tinted env color

namespace AllTinted

variable {env : Environment α} {ps qs : List (Pattern α)}

@[simp] theorem nil : AllTinted env [] :=
  nofun

@[simp] theorem append_iff :
    AllTinted env (ps ++ qs) ↔
      AllTinted env ps ∧ AllTinted env qs := by
  unfold AllTinted
  rw [List.forall_mem_append]

@[simp] theorem singleton_iff
    {p : Pattern α} :
    AllTinted env [p] ↔ ∀ color ∈ p.kind.colors, Tinted env color := by
  unfold AllTinted
  rw [List.forall_mem_singleton]

/- What a path is painted with is tinted. -/
theorem of_path
    {state : PathState α}
    (hFill : AllTinted env state.fill?.toList)
    (hStroke : AllTinted env state.stroke?.toList)
    (hMask : AllTinted env state.mask?.toList) :
    AllTinted env state.patterns :=
  append_iff.mpr ⟨append_iff.mpr ⟨hFill, hStroke⟩, hMask⟩

/- Fewer patterns show fewer colors. -/
theorem mono
    (hTinted : AllTinted env ps)
    (hFewer : qs ⊆ ps) :
    AllTinted env qs :=
  fun p hMem => hTinted p (hFewer hMem)

end AllTinted

------------------------------------------------------------
-- Surfaces
------------------------------------------------------------

/- All that is painted with on a surface is tinted. -/
def Surface.Sound
    (env : Environment α)
    (s : Surface α) : Prop :=
  ∀ op ∈ s.written, AllTinted env op.patterns

namespace Surface.Sound

variable {env : Environment α} {s s' : Surface α}

theorem blank : Sound env blank :=
  nofun

/- More operations whose patterns are tinted. -/
theorem append
    {w : List (Operation α)}
    (hSound : s.Sound env)
    (hWritten : s'.written = s.written ++ w)
    (hNew : ∀ op ∈ w, AllTinted env op.patterns) :
    s'.Sound env := by
  unfold Sound
  rw [hWritten, List.forall_mem_append]
  exact ⟨hSound, hNew⟩

/- One more operation. -/
theorem snoc
    {op : Operation α}
    (hSound : s.Sound env)
    (hWritten : s'.written = s.written ++ [op])
    (hNew : AllTinted env op.patterns) :
    s'.Sound env := by
  refine hSound.append hWritten ?_
  rw [List.forall_mem_singleton]
  exact hNew

variable (hSound : s.Sound env)

include hSound

theorem record
    {op : Operation α}
    (hNew : AllTinted env op.patterns) :
    (s.record op).Sound env :=
  hSound.snoc (s.written_record op) hNew

theorem save : s.save.Sound env :=
  hSound.snoc s.written_save .nil

theorem restore : s.restore.Sound env :=
  hSound.snoc s.written_restore .nil

theorem transform
    (m : Matrix α) :
    (s.transform m).Sound env :=
  hSound.snoc (s.written_transform m) .nil

theorem newPath : s.newPath.Sound env :=
  hSound.record .nil

theorem clip : s.clip.Sound env :=
  hSound.record .nil

theorem pushGroup : s.pushGroup.Sound env :=
  hSound.snoc s.written_pushGroup .nil

theorem closeGroup : s.closeGroup.Sound env :=
  hSound.snoc s.written_closeGroup .nil

theorem setSource
    {p : Pattern α}
    (hNew : AllTinted env [p]) :
    (s.setSource p).Sound env :=
  hSound.snoc (s.written_setSource p) hNew

theorem takeAll
    (steps : List (PathStep α)) :
    (s.takeAll steps).Sound env := by
  refine hSound.append (s.written_takeAll steps) fun op hMem => ?_
  rcases List.mem_map.mp hMem with ⟨step, -, rfl⟩
  cases step <;> exact .nil

omit hSound in
theorem onlyIf
    {f : Surface α → Surface α}
    (condition : Bool)
    (hDraws : ∀ s : Surface α, s.Sound env → (f s).Sound env)
    (hSound : s.Sound env) :
    (FixedPage.onlyIf condition f s).Sound env := by
  cases condition with
  | false => exact hSound
  | true => exact hDraws s hSound

/- The layer of a group has no colors of its own. -/
theorem popGroupToSource : s.popGroupToSource.Sound env :=
  hSound.closeGroup.setSource (AllTinted.singleton_iff.mpr nofun)

theorem maskGroup
    {mask? : Option (Pattern α)}
    (hMask : AllTinted env mask?.toList) :
    (FixedPage.maskGroup mask? s).Sound env := by
  cases mask? with
  | none => exact hSound.popGroupToSource
  | some mask =>
      exact hSound.popGroupToSource.snoc (Surface.written_record ..) hMask

theorem paintGroups
    (inMask inOpacity : Bool)
    {mask? : Option (Pattern α)}
    (hMask : AllTinted env mask?.toList)
    (opacity : α) :
    (FixedPage.paintGroups inMask inOpacity mask? opacity s).Sound
      env := by
  refine onlyIf inOpacity ?_ (onlyIf inMask ?_ hSound)
  · exact fun s hSound => hSound.popGroupToSource.record .nil
  · exact fun s hSound => hSound.maskGroup hMask

theorem dropGroups
    (inMask inOpacity : Bool) :
    (FixedPage.dropGroups inMask inOpacity s).Sound env :=
  onlyIf inOpacity (fun _ => closeGroup)
    (onlyIf inMask (fun _ => closeGroup) hSound)

/- Filling and stroking paints with the brushes of the path. -/
theorem paintCurrent
    {state : PathState α}
    (hState : AllTinted env state.patterns)
    (filled : Bool) :
    (FixedPage.paintCurrent state filled s).Sound env := by
  have hFill := hState.mono state.fill_subset
  have hStroke := hState.mono state.stroke_subset
  have hFilled :
      AllTinted env
        (if filled then state.fill? else none).toList := by
    cases filled with
    | false => exact .nil
    | true => exact hFill
  unfold FixedPage.paintCurrent
  dsimp only
  split
  · rename_i hIf hIs
    rw [hIf] at hFilled
    rw [hIs] at hStroke
    exact
      (((hSound.setSource hFilled).record .nil).setSource
        hStroke).record .nil
  · rename_i hIf _
    rw [hIf] at hFilled
    exact (hSound.setSource hFilled).record .nil
  · rename_i hIs
    rw [hIs] at hStroke
    exact (hSound.setSource hStroke).record .nil
  · exact hSound.newPath

/- A path is painted with its brushes and its mask. -/
theorem paintPath
    {state : PathState α}
    (hState : AllTinted env state.patterns)
    (path : PathBuilder α)
    (filled : Bool) :
    (FixedPage.paintPath path state filled s).Sound env := by
  have hPath
      {s : Surface α}
      (hSound : s.Sound env) :
      (FixedPage.paintCurrent state filled
        (s.newPath.takeAll path.steps)).Sound env :=
    (hSound.newPath.takeAll path.steps).paintCurrent hState filled
  have hMask := hState.mono state.mask_subset
  unfold FixedPage.paintPath beginMask endMask
  cases hIs : state.mask? with
  | none => exact hPath hSound
  | some mask =>
      rw [hIs] at hMask
      cases state.maskExtents? path with
      | none => exact (hPath hSound.pushGroup).maskGroup hMask
      | some box =>
          have hBox : (s.newPath.rectangle box).Sound env :=
            hSound.newPath.takeAll _
          exact (hPath hBox.clip.pushGroup).maskGroup hMask

end Surface.Sound

------------------------------------------------------------
-- States
------------------------------------------------------------

/-
  The surface is sound, the markup in scope has been recorded, and
  the profiles in memory convert inks into range.
-/
structure RenderState.Sound
    (env : Environment α)
    (st : RenderState α) : Prop where
  surface : st.surface.Sound env
  scope :
    ∀ dictionary ∈ st.scope.dictionaries,
      ∀ stored ∈ dictionary,
        ∃ entry, Recorded env entry ∧ stored.2 = entry.markup
  profiles : HoldsUnit st.profiles

namespace RenderState.Sound

variable {env : Environment α} {st : RenderState α}

theorem draw
    {f : Surface α → Surface α}
    (hState : st.Sound env)
    (hDraws : ∀ s : Surface α, s.Sound env → (f s).Sound env) :
    (st.draw f).Sound env :=
  { hState with surface := hDraws _ hState.surface }

theorem popDictionaries
    (hState : st.Sound env)
    (n : Nat) :
    (st.popDictionaries n).Sound env where
  surface := hState.surface
  scope dictionary hMem :=
    hState.scope dictionary (List.mem_of_mem_drop hMem)
  profiles := hState.profiles

/- Markup that is found in scope has been recorded. -/
theorem get?
    (hState : st.Sound env)
    {key markup : String}
    (hFound : st.scope.get? key = some markup) :
    ∃ entry, Recorded env entry ∧ markup = entry.markup := by
  unfold ResourceScope.get? at hFound
  rcases List.exists_of_findSome?_eq_some hFound with
    ⟨dictionary, hMem, hLookup⟩
  rcases List.lookup_eq_some_iff.mp hLookup with ⟨pre, post, rfl, -⟩
  exact hState.scope _ hMem (key, markup) (by simp)

/- An entry that has been recorded is stored. -/
theorem set
    (hState : st.Sound env)
    {entry : ResourceEntry}
    (hEntry : Recorded env entry) :
    Sound env
      { st with scope := (st.scope.set entry.key entry.markup).2 } where
  surface := hState.surface
  scope := by
    have hScope := hState.scope
    unfold ResourceScope.set
    cases hIs : st.scope.dictionaries with
    | nil =>
        simp only [List.lookup_nil, Option.isSome_none,
          Bool.false_eq_true, if_false, List.forall_mem_singleton]
        exact ⟨entry, hEntry, rfl⟩
    | cons inner outer =>
        rw [hIs, List.forall_mem_cons] at hScope
        dsimp only
        split
        · exact List.forall_mem_cons.mpr hScope
        · rw [List.forall_mem_cons, List.forall_mem_cons]
          exact ⟨⟨⟨entry, hEntry, rfl⟩, hScope.1⟩, hScope.2⟩
  profiles := hState.profiles

end RenderState.Sound

------------------------------------------------------------
-- Actions
------------------------------------------------------------

/-
  An action keeps the state sound, whether it fails or not, and
  what it gives has a property.
-/
def Action.Meets
    {β : Type}
    (env : Environment α)
    (P : β → Prop)
    (x : Action α β) : Prop :=
  ∀ st,
    st.Sound env →
      (x.perform st).2.Sound env ∧
        ∀ b, (x.perform st).1 = .ok b → P b

namespace Action.Meets

variable {β γ : Type} {env : Environment α}
variable {P : β → Prop} {Q : γ → Prop}

theorem pure
    {b : β}
    (hP : P b) :
    Meets env P (Pure.pure b) := by
  intro st hState
  refine ⟨hState, ?_⟩
  rintro _ ⟨⟩
  exact hP

theorem fail
    (fault : Error) :
    Meets env P (Action.fail fault) :=
  fun _ hState => ⟨hState, nofun⟩

/- A result that is there before. -/
theorem ofExcept
    {x : Except Error β}
    (hP : ∀ b, x = .ok b → P b) :
    Meets env P (Action.ofExcept x) :=
  fun _ hState => ⟨hState, hP⟩

/- What leaves the state alone. -/
theorem ofKeeps
    {x : Action α β}
    (hKeeps : x.Keeps Eq) :
    Meets env (fun _ => True) x := by
  intro st hState
  rw [← hKeeps st]
  exact ⟨hState, fun _ _ => trivial⟩

theorem bind
    {x : Action α β}
    {f : β → Action α γ}
    (hFirst : Meets env P x)
    (hNext : ∀ b, P b → Meets env Q (f b)) :
    Meets env Q (x >>= f) := by
  intro st hState
  rcases hFirst st hState with ⟨hMid, hP⟩
  rw [perform_bind]
  rcases hResult : x.perform st with ⟨fault | b, mid⟩
  · rw [hResult] at hMid
    exact ⟨hMid, nofun⟩
  · rw [hResult] at hMid hP
    exact hNext b (hP b rfl) mid hMid

/- A result that is used without further actions. -/
theorem thenPure
    {x : Action α β}
    {f : β → γ}
    (hFirst : Meets env P x)
    (hNext : ∀ b, P b → Q (f b)) :
    Meets env Q (x >>= fun b => Pure.pure (f b)) :=
  hFirst.bind fun b hP => pure (hNext b hP)

/- A value that is read and used without further actions. -/
theorem readPure
    {f : β → γ}
    {x : Except Error β}
    (hNext : ∀ b, x = .ok b → Q (f b)) :
    Meets env Q
      (Action.ofExcept x >>= fun b => Pure.pure (f b)) :=
  (ofExcept fun _ hOk => hOk).thenPure hNext

/- Less may be asked of the result. -/
theorem mono
    {P' : β → Prop}
    {x : Action α β}
    (hMeets : Meets env P x)
    (hLess : ∀ b, P b → P' b) :
    Meets env P' x := by
  intro st hState
  rcases hMeets st hState with ⟨hDone, hP⟩
  exact ⟨hDone, fun b hOk => hLess b (hP b hOk)⟩

/- A property that every step of a fold passes on. -/
theorem foldlM
    {ι : Type}
    {step : β → ι → Action α β}
    {is : List ι}
    (hStep : ∀ b, ∀ i ∈ is, P b → Meets env P (step b i))
    {b : β}
    (hP : P b) :
    Meets env P (is.foldlM step b) := by
  induction is generalizing b with
  | nil => exact pure hP
  | cons i is ih =>
      have hRest : ∀ b, ∀ i ∈ is, P b → Meets env P (step b i) :=
        fun b i hMem => hStep b i (List.mem_cons_of_mem _ hMem)
      rw [List.foldlM_cons]
      exact
        (hStep b i List.mem_cons_self hP).bind fun b hP => ih hRest hP

theorem change
    {f : RenderState α → RenderState α}
    (hKeeps : ∀ st, st.Sound env → (f st).Sound env) :
    Meets env (fun _ => True) (Action.change f) :=
  fun st hState => ⟨hKeeps st hState, fun _ _ => trivial⟩

theorem draw
    {f : Surface α → Surface α}
    (hDraws : ∀ s : Surface α, s.Sound env → (f s).Sound env) :
    Meets env (fun _ => True) (Action.draw f) :=
  .change fun _ hState => hState.draw hDraws

/- A step back after a failure. -/
theorem onError
    {x : Action α β}
    (hFirst : Meets env P x) :
    Meets env P
      (x.onError (RenderState.draw Surface.restore)) := by
  intro st hState
  rcases hFirst st hState with ⟨hDone, hP⟩
  rw [perform_onError]
  rcases hResult : x.perform st with ⟨fault | b, now⟩
  · rw [hResult] at hDone
    exact ⟨hDone.draw fun _ => Surface.Sound.restore, nofun⟩
  · rw [hResult] at hDone hP
    exact ⟨hDone, hP⟩

end Action.Meets

------------------------------------------------------------
-- Path data
------------------------------------------------------------

variable {env : Environment α}

/- Path data has no colors. -/
theorem drawData_meets
    (data : String) :
    Action.Meets env (fun _ => True) (drawData data) := by
  intro st hState
  have hDrawn :
      RenderState.Sound env
        { st with surface := (st.surface.drawData data).2 } :=
    { hState with surface := hState.surface.takeAll _ }
  unfold drawData
  rw [Action.perform_ofEffect]
  dsimp only
  split
  · exact ⟨hDrawn, fun _ _ => trivial⟩
  · exact ⟨hDrawn, nofun⟩

/- Neither has a clip. -/
theorem clipToAny_meets
    (data? : Option String) :
    Action.Meets env (fun _ => True) (clipToAny data?) := by
  unfold clipToAny
  split
  · exact .pure trivial
  · exact
      .bind (.draw fun _ => Surface.Sound.newPath) fun _ _ =>
        .bind (drawData_meets _) fun _ _ =>
          .draw fun _ => Surface.Sound.clip

end FixedPage
