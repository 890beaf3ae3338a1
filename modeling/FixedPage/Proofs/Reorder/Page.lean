import FixedPage.Proofs.Mirror.Relation
import FixedPage.Proofs.Reorder.Elements
import FixedPage.Proofs.Scalar.Exact
import FixedPage.Render.Page

/-
  This file shows that the order in which an element lists its
  attributes has no meaning, but for the two that set the cap of
  the lines of a path. A page that refers to no resource and is
  rendered without a failure is drawn in the same way when the
  attributes of its elements are listed in another order.

  Main declarations:
    * `Frame.endChild_repeats`
    * `Frame.finish_repeats`
    * `Stack.feed_repeats`
    * `startElement_repeats`
    * `Page.render_reordered`
-/

namespace FixedPage

open Markup

section

variable {α : Type} [Scalar α] {env : Environment α}
variable {parts : String → Option (List UInt8)}
variable {st st' : RenderState α}

------------------------------------------------------------
-- Ends
------------------------------------------------------------

/- An element has ended inside frames that are alike. -/
structure EndedAlike
    (env : Environment α)
    (parts : String → Option (List UInt8))
    (outcome outcome' : Frame α × RenderState α) : Prop where
  frame : outcome.1.Alike outcome'.1
  states : Abreast env parts outcome.2 outcome'.2

omit [Scalar α] in
/- A frame that changes as the other one does. -/
theorem EndedAlike.same
    (frame : Frame α)
    (hStates : Abreast env parts st st') :
    EndedAlike env parts (frame, st) (frame, st') :=
  ⟨.same frame, hStates⟩

section

variable (hStates : Abreast env parts st st')

include hStates

omit [Scalar α] in
/- Something is drawn. -/
theorem Abreast.draw
    (f : Surface α → Surface α) :
    Abreast env parts (st.draw f) (st'.draw f) := by
  rcases hStates with ⟨_, _, _, _, _, _, hProfiles⟩
  exact .intro _ _ _ _ _ _ hProfiles

omit [Scalar α] in
/- Some dictionaries are closed. -/
theorem Abreast.popDictionaries
    (n : Nat) :
    Abreast env parts (st.popDictionaries n)
      (st'.popDictionaries n) := by
  rcases hStates with ⟨_, _, _, _, _, _, hProfiles⟩
  exact .intro _ _ _ _ _ _ hProfiles

omit [Scalar α] in
theorem ContentFrame.endChild_repeats
    (f : ContentFrame α)
    (name : String)
    (product : Product α) :
    EndedAlike env parts
      ((f.endChild name product st).map .content id)
      ((f.endChild name product st').map .content id) := by
  unfold endChild
  split
  · exact .same _ (hStates.popDictionaries _)
  · exact .same _ hStates
  · exact .same _ hStates

theorem CanvasFrame.endChild_repeats
    (f : CanvasFrame α)
    (name : String)
    (product : Product α) :
    EndedAlike env parts
      ((f.endChild name product st).map .canvas id)
      ((f.endChild name product st').map .canvas id) := by
  unfold endChild
  split
  · exact .same _ (hStates.draw _)
  · split
    · exact .same _ (hStates.draw _)
    · exact .same _ hStates
  · exact .same _ hStates

theorem PathFrame.endChild_repeats
    (f : PathFrame α)
    (name : String)
    (product : Product α) :
    EndedAlike env parts
      ((f.endChild name product st).map .path id)
      ((f.endChild name product st').map .path id) := by
  unfold endChild
  split
  · exact .same _ hStates
  · exact .same _ hStates
  · split
    · exact .same _ hStates
    · exact .same _ hStates
  · exact .same _ (hStates.draw _)
  · exact .same _ hStates
  · exact .same _ hStates
  · exact .same _ hStates

theorem GeometryFrame.endChild_repeats
    (f : GeometryFrame α)
    (name : String)
    (product : Product α) :
    EndedAlike env parts
      ((f.endChild name product st).map .geometry id)
      ((f.endChild name product st').map .geometry id) := by
  rcases hStates with ⟨_, _, _, _, _, _, hProfiles⟩
  unfold endChild
  split
  · exact .same _ (.intro _ _ _ _ _ _ hProfiles)
  · exact .same _ (.intro _ _ _ _ _ _ hProfiles)
  · exact .same _ (.intro _ _ _ _ _ _ hProfiles)

theorem GlyphsFrame.endChild_repeats
    (f : GlyphsFrame α)
    (name : String)
    (product : Product α) :
    EndedAlike env parts
      ((f.endChild name product st).map .glyphs id)
      ((f.endChild name product st').map .glyphs id) := by
  unfold endChild
  split
  · exact .same _ (hStates.draw _)
  · exact .same _ hStates
  · split
    · exact .same _ (hStates.draw _)
    · exact .same _ hStates
  · exact .same _ hStates

/- A brush is made of what is loaded and drawn. -/
theorem endBrush_repeats
    (pattern? : Option (Pattern α))
    (product : Product α) :
    EndedAlike env parts
      ((endBrush env pattern? product st).map .brush id)
      ((endBrush env pattern? product st').map .brush id) := by
  rcases hStates with
    ⟨surface, scope, scope', depth, fonts, images, hProfiles⟩
  unfold endBrush
  split
  · rename_i b
    unfold Brush.resolve
    cases b with
    | gradient g => exact .same _ (.intro _ _ _ _ _ _ hProfiles)
    | image i =>
        dsimp only
        unfold ImageBrush.resolve
        dsimp only
        rcases images.getOrLoad env.loadImage i.source with
          ⟨fault | image, images⟩
        · exact .same _ (.intro _ _ _ _ _ _ hProfiles)
        · dsimp only
          cases i.pattern? image with
          | none => exact .same _ (.intro _ _ _ _ _ _ hProfiles)
          | some pattern =>
              dsimp only
              cases i.opacity == 1 with
              | true => exact .same _ (.intro _ _ _ _ _ _ hProfiles)
              | false => exact .same _ (.intro _ _ _ _ _ _ hProfiles)
  · exact .same _ (.intro _ _ _ _ _ _ hProfiles)
  · exact .same _ (.intro _ _ _ _ _ _ hProfiles)

omit [Scalar α] in
/- An entry of a dictionary ends, or an element inside one. -/
theorem endEntry_repeats
    {entry entry' : ResourceEntry}
    (hNesting : entry'.nesting = entry.nesting)
    (name : String) :
    EndedAlike env parts
      ((endEntry (some entry) name st).map .dictionary id)
      ((endEntry (some entry') name st').map .dictionary id) := by
  unfold endEntry ResourceEntry.endElement?
  dsimp only
  rw [hNesting]
  cases entry.nesting == 0 with
  | true =>
      rcases hStates with ⟨_, _, _, _, _, _, hProfiles⟩
      exact .same _ (.intro _ _ _ _ _ _ hProfiles)
  | false => exact ⟨.entry rfl, hStates⟩

/- An element ends, with the product of its frame, if it has one. -/
theorem Frame.endChild_repeats
    {frame frame' : Frame α}
    (hFrames : frame.Alike frame')
    (name : String)
    (product : Product α) :
    EndedAlike env parts (frame.endChild env name product st)
      (frame'.endChild (env.repacked parts) name product st') := by
  cases hFrames with
  | entry hNesting => exact endEntry_repeats hStates hNesting name
  | same =>
      cases frame with
      | content f => exact f.endChild_repeats hStates name product
      | canvas f => exact f.endChild_repeats hStates name product
      | path f => exact f.endChild_repeats hStates name product
      | geometry f => exact f.endChild_repeats hStates name product
      | brush pattern? =>
          exact endBrush_repeats hStates pattern? product
      | gradient g => exact .same _ hStates
      | image i => exact .same _ hStates
      | glyphs f => exact f.endChild_repeats hStates name product
      | matrix m => exact .same _ hStates
      | resources remote => exact .same _ hStates
      | dictionary current? =>
          cases current? with
          | none => exact .same _ hStates
          | some entry => exact endEntry_repeats hStates rfl name

end

/- Path data is painted. -/
theorem paintData_repeats
    (state : PathState α)
    (data : String) :
    Action.Repeats env parts Eq (paintData state data)
      (paintData state data) := by
  unfold paintData
  refine .andThen (.draw _) fun _ => ?_
  refine .andThen (clipToAny_repeats _) fun _ => ?_
  dsimp only
  split
  · exact .fail _ _
  · exact .draw _

theorem PathFrame.finish_repeats
    (f : PathFrame α) :
    Action.Repeats env parts Eq f.finish f.finish := by
  unfold finish
  split
  · refine .andThen (paintData_repeats _ _) fun _ => ?_
    exact .andThen (.draw _) fun _ => .pure rfl
  · exact .andThen (.draw _) fun _ => .pure rfl

omit [Scalar α] in
theorem GlyphRun.loadFont_repeats
    (run : GlyphRun α) :
    Action.Repeats env parts Eq (run.loadFont env)
      (run.loadFont env) := by
  rintro _ _ ⟨surface, scope, scope', depth, fonts, images, hProfiles⟩
  unfold loadFont
  rw [Action.perform_ofEffect, Action.perform_ofEffect]
  dsimp only
  rcases fonts.getOrLoad env.loadFont run.font with ⟨fault | font, fonts⟩
  · exact .fault _ _ _
  · exact .ok rfl (.intro _ _ _ _ _ _ hProfiles)

theorem GlyphsFrame.finish_repeats
    (f : GlyphsFrame α) :
    Action.Repeats env parts Eq (f.finish env) (f.finish env) := by
  unfold finish
  refine .andThen f.run.loadFont_repeats fun font => ?_
  refine .andThen (clipToAny_repeats _) fun _ => ?_
  dsimp only
  split
  · exact .fail _ _
  · exact .andThen (.draw _) fun _ => .pure rfl

/- The owner of a frame ends. -/
theorem Frame.finish_repeats
    {frame frame' : Frame α}
    (hFrames : frame.Alike frame') :
    Action.Repeats env parts Eq (frame.finish env)
      (frame'.finish (env.repacked parts)) := by
  change
    Action.Repeats env parts Eq (frame.finish env) (frame'.finish env)
  cases hFrames with
  | entry => exact .pure rfl
  | same =>
      cases frame with
      | content f =>
          rintro _ _
            ⟨surface, scope, scope', depth, fonts, images, hProfiles⟩
          unfold finish ContentFrame.finish
          rcases f with ⟨_ | v, dictionaries⟩
          · exact .ok rfl (.intro _ _ _ _ _ _ hProfiles)
          · exact .ok rfl (.intro _ _ _ _ _ _ hProfiles)
      | canvas f =>
          refine .andThen ?_ fun _ => .pure rfl
          intro st st' hStates
          exact
            .ok rfl (((hStates.draw _).popDictionaries _).draw _)
      | path f => exact f.finish_repeats
      | glyphs f => exact f.finish_repeats
      | _ => exact .pure rfl

------------------------------------------------------------
-- Events
------------------------------------------------------------

/-
  Two items of parts: elements start that are related, or the same
  happens otherwise. What stands for a fault does not matter.
-/
inductive Rewritten
    (T : Element → Element → Prop) : Item → Item → Prop
| startTag
    {place place' : Location}
    {name : String}
    {as as' : List Attribute}
    (hElements : T ⟨place, name, as⟩ ⟨place', name, as'⟩) :
    Rewritten T (.ok (place, .startTag name as))
      (.ok (place', .startTag name as'))
| endTag
    (place place' : Location)
    (name : String) :
    Rewritten T (.ok (place, .endTag name))
      (.ok (place', .endTag name))
| text
    (place place' : Location)
    (content : String) :
    Rewritten T (.ok (place, .text content))
      (.ok (place', .text content))
| fault
    (fault : Error)
    (item' : Item) :
    Rewritten T (.error fault) item'

/- Elements that are related start alike inside frames that are. -/
def StartsRepeated
    (env : Environment α)
    (parts : String → Option (List UInt8))
    (T : Element → Element → Prop)
    (handler handler' : StartHandler α) : Prop :=
  ∀ frame frame' e e',
    Frame.Alike frame frame' →
      T e e' →
        Action.Repeats env parts OpenedAlike (handler frame e)
          (handler' frame' e')

/- Two frames are alike and their owners are equally deep. -/
structure Entry.Alike
    (entry entry' : Entry α) : Prop where
  frame : entry.frame.Alike entry'.frame
  owner : entry'.owner = entry.owner

/- The frames of two stacks are alike. -/
structure Stack.Alike
    (stack stack' : Stack α) : Prop where
  entries : List.Forall₂ Entry.Alike stack.entries stack'.entries
  depth : stack'.depth = stack.depth

/- A stack has taken an event as the other one has. -/
inductive Fed.Repeated
    (env : Environment α)
    (parts : String → Option (List UInt8)) : Fed α → Fed α → Prop
| ok
    (product? : Option (Product α))
    {stack stack' : Stack α}
    {st st' : RenderState α}
    (hStacks : stack.Alike stack')
    (hStates : Abreast env parts st st') :
    Repeated env parts ⟨.ok product?, stack, st⟩
      ⟨.ok product?, stack', st'⟩
| fault
    (fault : Error)
    (stack : Stack α)
    (st : RenderState α)
    (fed' : Fed α) :
    Repeated env parts ⟨.error fault, stack, st⟩ fed'

section

variable {T : Element → Element → Prop}
variable {handler handler' : StartHandler α}
variable (hStarts : StartsRepeated env parts T handler handler')
variable {stack stack' : Stack α} (hStacks : stack.Alike stack')
variable (hStates : Abreast env parts st st')

include hStacks hStates

include hStarts in
omit [Scalar α] in
/- An element starts. -/
theorem Stack.startElement_repeats
    {e e' : Element}
    (hElements : T e e') :
    Fed.Repeated env parts (stack.startElement handler e st)
      (stack'.startElement handler' e' st') := by
  rcases stack with ⟨entries, depth⟩
  rcases stack' with ⟨entries', depth'⟩
  rcases hStacks with ⟨hEntries, hDepth⟩
  cases hDepth
  cases hEntries with
  | nil => exact .fault _ _ _ _
  | @cons top top' below below' hTop hBelow =>
      have hStep :=
        hStarts _ _ _ _ hTop.frame hElements st st' hStates
      unfold Stack.startElement
      dsimp only
      generalize (handler top.frame e).perform st = outcome at hStep ⊢
      generalize (handler' top'.frame e').perform st' = outcome'
        at hStep ⊢
      cases hStep with
      | fault fault now outcome' => exact .fault _ _ _ _
      | @ok frames frames' now now' hOpened hStates =>
          rcases frames with ⟨frame, child?⟩
          rcases frames' with ⟨frame', child'?⟩
          rcases hOpened with ⟨hFrame, hChild⟩
          cases hChild
          have hRest :
              List.Forall₂ Entry.Alike (⟨frame, top.owner⟩ :: below)
                (⟨frame', top'.owner⟩ :: below') :=
            .cons ⟨hFrame, hTop.owner⟩ hBelow
          refine .ok none ⟨?_, rfl⟩ hStates
          cases child? with
          | none => exact hRest
          | some child => exact .cons ⟨.same child, rfl⟩ hRest

/- An element ends. -/
theorem Stack.endElement_repeats
    (place place' : Location)
    (name : String) :
    Fed.Repeated env parts (stack.endElement env place name st)
      (stack'.endElement (env.repacked parts) place' name st') := by
  rcases stack with ⟨entries, depth⟩
  rcases stack' with ⟨entries', depth'⟩
  rcases hStacks with ⟨hEntries, hDepth⟩
  cases hDepth
  cases hEntries with
  | nil => exact .fault _ _ _ _
  | @cons top top' below below' hTop hBelow =>
      unfold Stack.endElement
      dsimp only
      rw [hTop.owner]
      split
      · rcases Frame.endChild_repeats hStates hTop.frame name .none with
          ⟨hFrame, hStates⟩
        exact .ok none ⟨.cons ⟨hFrame, rfl⟩ hBelow, rfl⟩ hStates
      · have hStep := Frame.finish_repeats hTop.frame st st' hStates
        generalize (top.frame.finish env).perform st = outcome
          at hStep ⊢
        generalize
          (top'.frame.finish (env.repacked parts)).perform st' =
            outcome' at hStep ⊢
        cases hStep with
        | fault fault now outcome' => exact .fault _ _ _ _
        | @ok product _ now now' hProduct hStates =>
            cases hProduct
            cases hBelow with
            | nil => exact .ok _ ⟨.nil, rfl⟩ hStates
            | @cons parent parent' below below' hParent hBelow =>
                rcases
                  Frame.endChild_repeats hStates hParent.frame name
                    product with ⟨hFrame, hStates⟩
                exact
                  .ok none
                    ⟨.cons ⟨hFrame, hParent.owner⟩ hBelow, rfl⟩ hStates

end

------------------------------------------------------------
-- Runs
------------------------------------------------------------

omit [Scalar α] in
/- The first elements of two fragments have one name. -/
theorem fragmentRoot_repeats
    {T : Element → Element → Prop}
    (env : Environment α)
    (parts : String → Option (List UInt8))
    (expected? : Option String)
    {items items' : List Item}
    (hItems : List.Forall₂ (Rewritten T) items items')
    (rest : List Item)
    (hRoot : fragmentRoot env expected? items = .ok rest) :
    ∃ rest',
      fragmentRoot (env.repacked parts) expected? items' = .ok rest' ∧
        List.Forall₂ (Rewritten T) rest rest' := by
  cases hItems with
  | nil => cases hRoot
  | cons hItem hRest =>
      cases hItem with
      | endTag => cases hRoot
      | text => cases hRoot
      | fault => cases hRoot
      | @startTag _ _ name =>
          cases expected? with
          | none =>
              cases hRoot
              exact ⟨_, rfl, hRest⟩
          | some expected =>
              unfold fragmentRoot at hRoot ⊢
              dsimp only at hRoot ⊢
              split at hRoot
              · rename_i hName
                cases hRoot
                rw [if_pos hName]
                exact ⟨_, rfl, hRest⟩
              · cases hRoot

section

variable {T : Element → Element → Prop}
variable {handler handler' : StartHandler α}
variable (hStarts : StartsRepeated env parts T handler handler')

include hStarts

/- An event is taken. -/
theorem Stack.feed_repeats
    {place place' : Location}
    {event event' : Event}
    (hItems : Rewritten T (.ok (place, event)) (.ok (place', event')))
    {stack stack' : Stack α}
    (hStacks : stack.Alike stack')
    (hStates : Abreast env parts st st') :
    Fed.Repeated env parts (stack.feed env handler place st event)
      (stack'.feed (env.repacked parts) handler' place' st' event') := by
  cases hItems with
  | startTag hElements =>
      exact startElement_repeats hStarts hStacks hStates hElements
  | endTag _ _ name =>
      exact endElement_repeats hStacks hStates place place' name
  | text => exact .ok none hStacks hStates

/- The events of a fragment are taken. -/
theorem runOpenFragment_repeats
    {items items' : List Item}
    (hItems : List.Forall₂ (Rewritten T) items items')
    {stack stack' : Stack α}
    (hStacks : stack.Alike stack')
    (hStates : Abreast env parts st st') :
    Repeated env parts Eq (runOpenFragment env handler stack st items)
      (runOpenFragment (env.repacked parts) handler' stack' st'
        items') := by
  induction hItems generalizing stack stack' st st' with
  | nil => exact .fault _ _ _
  | @cons item item' rest rest' hItem hRest ih =>
      rcases item with fault | ⟨place, event⟩
      · exact .fault _ _ _
      · rcases item' with fault | ⟨place', event'⟩
        · cases hItem
        · have hFed :=
            Stack.feed_repeats hStarts hItem hStacks hStates
          unfold runOpenFragment
          generalize stack.feed env handler place st event = fed
            at hFed ⊢
          generalize
            stack'.feed (env.repacked parts) handler' place' st' event' =
              fed' at hFed ⊢
          cases hFed with
          | fault fault stack st fed' => exact .fault _ _ _
          | ok product? hStacks hStates =>
              cases product? with
              | none => exact ih hStacks hStates
              | some product => exact .ok rfl hStates

/- A fragment whose root frame is the same. -/
theorem runFragment_repeats
    (root : Frame α)
    (expected? : Option String)
    {items items' : List Item}
    (hItems : List.Forall₂ (Rewritten T) items items') :
    Action.Repeats env parts Eq
      (runFragment env handler root expected? items)
      (runFragment (env.repacked parts) handler' root expected?
        items') := by
  intro st st' hStates
  unfold runFragment
  rw [Action.perform_bind, Action.perform_bind,
    Action.perform_ofExcept, Action.perform_ofExcept]
  cases hRoot : fragmentRoot env expected? items with
  | error fault => exact .fault _ _ _
  | ok rest =>
      rcases fragmentRoot_repeats env parts expected? hItems rest hRoot
        with ⟨rest', hRoot', hRest⟩
      rw [hRoot']
      exact
        runOpenFragment_repeats hStarts hRest
          ⟨.cons ⟨.same root, rfl⟩ .nil, rfl⟩ hStates

/- The events of a part are taken. -/
theorem runPart_repeats
    {items items' : List Item}
    (hItems : List.Forall₂ (Rewritten T) items items')
    {stack stack' : Stack α}
    (hStacks : stack.Alike stack')
    (hStates : Abreast env parts st st') :
    Repeated env parts Eq (runPart env handler stack st items)
      (runPart (env.repacked parts) handler' stack' st' items') := by
  induction hItems generalizing stack stack' st st' with
  | nil =>
      rcases stack with ⟨entries, depth⟩
      rcases stack' with ⟨entries', depth'⟩
      rcases hStacks with ⟨hEntries, hDepth⟩
      cases hDepth
      cases hEntries with
      | nil => exact .fault _ _ _
      | @cons root root' below below' hRoot hBelow =>
          cases hBelow with
          | cons => exact .fault _ _ _
          | nil =>
              cases depth with
              | succ depth => exact .fault _ _ _
              | zero =>
                  have hStep :=
                    Frame.finish_repeats hRoot.frame st st' hStates
                  change
                    Repeated env parts Eq
                      (((root.frame.finish env).perform st).map
                        (Except.map fun _ => ()) id)
                      (((root'.frame.finish (env.repacked parts)).perform
                        st').map (Except.map fun _ => ()) id)
                  generalize
                    (root.frame.finish env).perform st = outcome
                    at hStep ⊢
                  generalize
                    (root'.frame.finish (env.repacked parts)).perform
                      st' = outcome' at hStep ⊢
                  cases hStep with
                  | fault fault st outcome' => exact .fault _ _ _
                  | ok hSame hStates => exact .ok rfl hStates
  | @cons item item' rest rest' hItem hRest ih =>
      rcases item with fault | ⟨place, event⟩
      · exact .fault _ _ _
      · rcases item' with fault | ⟨place', event'⟩
        · cases hItem
        · have hFed :=
            Stack.feed_repeats hStarts hItem hStacks hStates
          unfold runPart
          generalize stack.feed env handler place st event = fed
            at hFed ⊢
          generalize
            stack'.feed (env.repacked parts) handler' place' st' event' =
              fed' at hFed ⊢
          cases hFed with
          | fault fault stack st fed' => exact .fault _ _ _
          | ok product? hStacks hStates => exact ih hStacks hStates

end

------------------------------------------------------------
-- Elements
------------------------------------------------------------

/-
  The other parts are there as well, with elements that may list
  their attributes in another order.
-/
def Repacks
    (env : Environment α)
    (parts : String → Option (List UInt8)) : Prop :=
  ∀ name content,
    env.part? name = some content →
      ∃ content',
        parts name = some content' ∧
          ∀ items, readBytes name content = .ok items →
            ∃ items',
              readBytes name content' = .ok items' ∧
                List.Forall₂
                  (Rewritten fun e e' => e' = e ∨ e.Reordered e')
                  items items'

/- A dictionary is loaded from its part. -/
theorem loadDictionary_repeats
    (hRepacks : Repacks env parts)
    (source : String) :
    Action.Repeats env parts Eq (loadDictionary env source)
      (loadDictionary (env.repacked parts) source) := by
  unfold loadDictionary
  dsimp only
  cases hPart :
      env.part? (PartName.resolve env.source (Text.trimString source))
    with
  | none => exact .fail _ _
  | some content =>
      rcases hRepacks _ _ hPart with ⟨content', hPart', hItems⟩
      have hSame :
          (env.repacked parts).part?
              (PartName.resolve (env.repacked parts).source
                (Text.trimString source)) =
            some content' :=
        hPart'
      rw [hSame]
      intro st st' hStates
      dsimp only
      rw [Action.perform_bind, Action.perform_bind,
        Action.perform_ofExcept, Action.perform_ofExcept]
      cases hRead :
          readBytes
            (PartName.resolve env.source (Text.trimString source))
            content with
      | error fault => exact .fault _ _ _
      | ok items =>
          rcases hItems items hRead with ⟨items', hRead', hRewritten⟩
          have hRead' :
              readBytes
                  (PartName.resolve (env.repacked parts).source
                    (Text.trimString source)) content' =
                .ok items' :=
            hRead'
          rw [hRead']
          have hStarts :
              StartsRepeated env parts
                (fun e e' => e' = e ∨ e.Reordered e')
                (startStored (α := α)) startStored :=
            fun _ _ _ _ hFrames hElements =>
              startStored_repeats hFrames hElements
          refine
            Action.Repeats.andThen
              (runFragment_repeats hStarts _ _ hRewritten)
              (fun _ => .pure rfl) st st' hStates

theorem startResources_repeats
    (hRepacks : Repacks env parts)
    (remote : Bool)
    {e e' : Element}
    (hReordered : e.Reordered e') :
    Action.Repeats env parts Eq (startResources env remote e)
      (startResources (env.repacked parts) remote e') := by
  unfold startResources
  rw [hReordered.name, hReordered.value?_eq]
  split
  · exact .fail _ _
  · split
    · exact
        .andThen (loadDictionary_repeats hRepacks _) fun _ => .pure rfl
    · exact .pure rfl

/- An element starts inside any frame. -/
theorem startElement_repeats
    (hRepacks : Repacks env parts)
    (lookup lookup' : BrushLookup α) :
    StartsRepeated env parts Element.Reordered
      (startElement env lookup)
      (startElement (env.repacked parts) lookup') := by
  intro frame frame' e e' hFrames hReordered
  cases hFrames with
  | entry hNesting =>
      exact startStored_repeats (.entry hNesting) (.inr hReordered)
  | same =>
      cases frame with
      | content f =>
          exact
            .andThen (f.startChild_repeats lookup lookup' hReordered)
              fun _ => .pure (.same _)
      | canvas f =>
          exact
            .andThen (f.startChild_repeats lookup lookup' hReordered)
              fun _ => .pure (.same _)
      | path f =>
          exact
            .andThen (f.startChild_repeats hReordered)
              fun _ => .pure (.same _)
      | geometry f =>
          exact
            .andThen (f.startChild_repeats hReordered)
              fun _ => .pure (.same _)
      | brush pattern? =>
          exact
            .andThen (startBrush_repeats pattern? hReordered)
              fun _ => .pure (.same _)
      | gradient g =>
          exact
            .andThen (g.startChild_repeats hReordered)
              fun _ => .pure (.same _)
      | image i =>
          exact
            .andThen
              (.ofExcept (ImageBrush.startChild_repeats hReordered))
              fun _ => .pure (.same _)
      | glyphs f =>
          unfold startElement
          rw [GlyphsFrame.startChild_eq hReordered]
          exact .pure (.same _)
      | resources remote =>
          exact
            .andThen
              (startResources_repeats hRepacks remote hReordered)
              fun _ => .pure (.same _)
      | matrix m =>
          exact
            startStored_repeats (.same (.matrix m)) (.inr hReordered)
      | dictionary current? =>
          exact
            startStored_repeats (.same (.dictionary current?))
              (.inr hReordered)

------------------------------------------------------------
-- Pages
------------------------------------------------------------

/- An event whose attributes are listed in another order. -/
inductive Markup.Event.Reordered : Event → Event → Prop
| startTag
    (name : String)
    {as as' : List Attribute}
    (hPerm : as.Perm as') :
    Reordered (.startTag name as) (.startTag name as')
| endTag
    (name : String) :
    Reordered (.endTag name) (.endTag name)
| text
    (content : String) :
    Reordered (.text content) (.text content)

/- The same events, with attributes that are listed in any order. -/
def Reorders
    (items items' : List Item) : Prop :=
  List.Forall₂
    (fun item item' =>
      ∃ place event place' event',
        item = .ok (place, event) ∧ item' = .ok (place', event') ∧
          event.Reordered event')
    items items'

/-
  The cap that an event leaves to the lines of a path, if it starts
  one.
-/
def Markup.Event.cap? : Event → Option LineCap
| .startTag name as => if name == "Path" then PathState.lastCap? as else none
| _ => none

/- The caps of the lines of the paths are the same. -/
def KeepsCaps
    (items items' : List Item) : Prop :=
  List.Forall₂
    (fun item item' =>
      ∀ place event place' event',
        item = .ok (place, event) → item' = .ok (place', event') →
          event'.cap? = event.cap?)
    items items'

/- No attribute of an element is a reference. -/
def Unreferring
    (items : List Item) : Prop :=
  ∀ place name as,
    .ok (place, .startTag name as) ∈ items →
      ∀ a ∈ as, Value.resourceKey? a.value = none

omit [Scalar α] in
/- The environment in which the part of the page is another one. -/
def Environment.rewritten
    (env : Environment α)
    (content' : List UInt8) : Environment α :=
  env.repacked fun name =>
    if name = env.source then some content' else env.part? name

/- Every item may be written where it was written before. -/
theorem Rewritten.refl
    {T : Element → Element → Prop}
    (hElements : ∀ e, T e e)
    (item : Item) :
    Rewritten T item item := by
  rcases item with fault | ⟨place, event⟩
  · exact .fault fault _
  · cases event with
    | startTag name as => exact .startTag (hElements _)
    | endTag name => exact .endTag place place name
    | text content => exact .text place place content

/- Events of a part whose attributes are listed in another order. -/
theorem rewritten_of_reorders
    {source : String}
    {content : List UInt8}
    {items items' : List Item}
    (hRead : readBytes source content = .ok items)
    (hReorders : Reorders items items')
    (hCaps : KeepsCaps items items')
    (hPlain : Unreferring items) :
    List.Forall₂ (Rewritten Element.Reordered) items items' := by
  have hNames :
      ∀ place event, .ok (place, event) ∈ items → event.NamesDiffer :=
    fun _ _ hMem => readBytes_namesDiffer hRead hMem
  clear hRead
  induction hReorders with
  | nil => exact .nil
  | @cons item item' rest rest' hItem hRest ih =>
      rcases hItem with
        ⟨place, event, place', event', rfl, rfl, hEvent⟩
      cases hCaps with
      | cons hCap hRestCaps =>
          refine .cons ?_ (ih hRestCaps ?_ ?_)
          · cases hEvent with
            | startTag name hPerm =>
                refine .startTag ⟨rfl, hPerm, ?_, ?_, ?_⟩
                · exact hNames place _ List.mem_cons_self
                · exact hPlain place name _ List.mem_cons_self
                · intro hPath
                  change name = "Path" at hPath
                  cases hPath
                  exact hCap _ _ _ _ rfl rfl
            | endTag name => exact .endTag place place' name
            | text content => exact .text place place' content
          · intro place name as hMem
            exact hPlain place name as (List.mem_cons_of_mem _ hMem)
          · intro place event hMem
            exact hNames place event (List.mem_cons_of_mem _ hMem)

omit [Scalar α] in
/- The profiles of a package, of which the page is none. -/
theorem Environment.profile?_rewritten
    {content content' : List UInt8}
    (hPart : env.part? env.source = some content)
    (hProfile :
      (env.readProfile content').toOption =
        (env.readProfile content).toOption)
    (profiles : ProfileCache α) :
    (env.rewritten content').profile? profiles =
      env.profile? profiles := by
  have hLoad :
      ∀ name,
        ((env.rewritten content').profileSource.load name).toOption =
          (env.profileSource.load name).toOption := by
    intro name
    unfold ProfileSource.load
    by_cases hName : name = env.source
    · have hHere : env.profileSource.part? name = some content := by
        rw [hName]
        exact hPart
      have hThere :
          (env.rewritten content').profileSource.part? name =
            some content' :=
        if_pos hName
      have hReader :
          (env.rewritten content').profileSource.read content' =
            env.readProfile content' :=
        rfl
      have hReader' :
          env.profileSource.read content = env.readProfile content :=
        rfl
      rw [hHere, hThere]
      dsimp only
      rw [hReader, hReader']
      cases hNew : env.readProfile content' with
      | error reason =>
          cases hOld : env.readProfile content with
          | error reason => rfl
          | ok p =>
              rw [hNew, hOld] at hProfile
              cases hProfile
      | ok p =>
          cases hOld : env.readProfile content with
          | error reason =>
              rw [hNew, hOld] at hProfile
              cases hProfile
          | ok p =>
              rw [hNew, hOld] at hProfile
              cases hProfile
              rfl
    · have hSame :
          (env.rewritten content').profileSource.part? name =
            env.profileSource.part? name :=
        if_neg hName
      rw [hSame]
      rfl
  funext name
  exact congrArg (profiles.get? name).or (hLoad name)

/-
  A page that refers to no resource and is rendered without a
  failure is drawn in the same way when its elements list their
  attributes in any other order, as long as the cap that counts for
  the lines of each path does. The page is no color profile.
-/
theorem Page.render_reordered
    (st : RenderState α)
    {content content' : List UInt8}
    {items items' : List Item}
    (hPart : env.part? env.source = some content)
    (hRead : readBytes env.source content = .ok items)
    (hRead' : readBytes env.source content' = .ok items')
    (hReorders : Reorders items items')
    (hCaps : KeepsCaps items items')
    (hPlain : Unreferring items)
    (hProfile :
      (env.readProfile content').toOption =
        (env.readProfile content).toOption)
    (hOk : (Page.render env st).1 = .ok ()) :
    (Page.render (env.rewritten content') st).1 = .ok () ∧
      (Page.render (env.rewritten content') st).2.surface =
        (Page.render env st).2.surface := by
  have hRewritten :=
    rewritten_of_reorders hRead hReorders hCaps hPlain
  have hItems : Page.items env = .ok items := by
    unfold Page.items
    rw [hPart]
    exact hRead
  have hItems' : Page.items (env.rewritten content') = .ok items' := by
    have hPart' :
        (env.rewritten content').part? (env.rewritten content').source =
          some content' :=
      if_pos rfl
    unfold Page.items
    rw [hPart']
    exact hRead'
  have hRepacks :
      Repacks env fun name =>
        if name = env.source then some content' else env.part? name := by
    intro name other hOther
    by_cases hName : name = env.source
    · cases hName
      rw [hPart] at hOther
      cases hOther
      refine ⟨content', if_pos rfl, ?_⟩
      intro items hSame
      rw [hRead] at hSame
      cases hSame
      refine ⟨items', hRead', hRewritten.imp ?_⟩
      intro item item' hItem
      cases hItem with
      | startTag hElements => exact .startTag (.inr hElements)
      | endTag place place' name => exact .endTag place place' name
      | text place place' content => exact .text place place' content
      | fault fault item' => exact .fault fault item'
    · refine ⟨other, (if_neg hName).trans hOther, ?_⟩
      intro items hSame
      refine ⟨items, hSame, List.forall₂_same.mpr ?_⟩
      intro item _
      exact .refl (fun _ => .inl rfl) item
  have hStates :
      Abreast env
        (fun name =>
          if name = env.source then some content' else env.part? name)
        st st :=
    .intro _ _ _ _ _ _
      (Environment.profile?_rewritten hPart hProfile st.profiles)
  have hRoot :
      (Stack.ofPart (.content ⟨none, 0⟩ : Frame α)).Alike
        (.ofPart (.content ⟨none, 0⟩)) :=
    ⟨.cons ⟨.same _, rfl⟩ .nil, rfl⟩
  have hRun :=
    runPart_repeats
      (startElement_repeats hRepacks (pageBrush env)
        (pageBrush (env.rewritten content')))
      hRewritten hRoot hStates
  unfold Page.render at hOk ⊢
  rw [hItems] at hOk ⊢
  rw [hItems']
  dsimp only at hOk ⊢
  change
    Repeated env _ Eq (renderItems env items st)
      (renderItems (env.rewritten content') items' st) at hRun
  generalize renderItems env items st = outcome at hOk hRun ⊢
  generalize renderItems (env.rewritten content') items' st = outcome'
    at hRun ⊢
  cases hRun with
  | ok hSame hStates => exact ⟨rfl, hStates.surface_eq⟩
  | fault => cases hOk

end

------------------------------------------------------------
-- A path with two caps
------------------------------------------------------------

namespace CappedPage

/- The line of a path, and the caps of its two ends. -/
def data : Attribute :=
  ⟨"Data", "M 0,0 L 8,0 8,8"⟩

def stroke : Attribute :=
  ⟨"Stroke", "#FF0000"⟩

def startCap : Attribute :=
  ⟨"StrokeStartLineCap", "Round"⟩

def endCap : Attribute :=
  ⟨"StrokeEndLineCap", "Square"⟩

/- A page with a path that has some attributes. -/
def content
    (as : List Attribute) : List UInt8 :=
  Text.Utf8.encode
    ("<FixedPage><Path"
      ++ String.join (as.map ResourceEntry.attributeText)
      ++ "/></FixedPage>").toList

/- Its events. -/
def items
    (as : List Attribute) : List Item :=
  [.ok (⟨"page", 1, 1⟩, .startTag "FixedPage" []),
    .ok (⟨"page", 1, 12⟩, .startTag "Path" as),
    .ok (⟨"page", 1, 12⟩, .endTag "Path"),
    .ok (⟨"page", 1, 112⟩, .endTag "FixedPage")]

/- The attributes as they are listed first. -/
def listed : List Attribute :=
  [data, stroke, endCap, startCap]

def env : Environment ℚ :=
  { Environment.empty with part? := fun _ => some (content listed) }

def start : RenderState ℚ :=
  .start .empty .empty .empty

/- The caps change places, and the other attributes do. -/
def swapped : List Attribute :=
  [data, stroke, startCap, endCap]

def moved : List Attribute :=
  [endCap, stroke, startCap, data]

theorem read_listed :
    readBytes "page" (content listed) = .ok (items listed) := by
  decide +kernel

theorem drawn :
    (Page.render env start).1 = .ok () := by
  decide +kernel

/- Attributes of the path are listed in another order. -/
theorem reorders
    {as as' : List Attribute}
    (hPerm : as.Perm as') :
    Reorders (items as) (items as') :=
  .cons ⟨_, _, _, _, rfl, rfl, .startTag _ .nil⟩
    (.cons ⟨_, _, _, _, rfl, rfl, .startTag _ hPerm⟩
      (.cons ⟨_, _, _, _, rfl, rfl, .endTag _⟩
        (.cons ⟨_, _, _, _, rfl, rfl, .endTag _⟩ .nil)))

/- No attribute is a reference. -/
theorem unreferring : Unreferring (items listed) := by
  intro place name as hMem a hAttribute
  have hAll :
      ∀ a ∈ listed, Value.resourceKey? a.value = none := by
    decide +kernel
  simp only [items, List.mem_cons, List.not_mem_nil, or_false,
    Except.ok.injEq, Prod.mk.injEq, Event.startTag.injEq, reduceCtorEq,
    and_false] at hMem
  rcases hMem with ⟨-, -, rfl⟩ | ⟨-, -, rfl⟩
  · cases hAttribute
  · exact hAll a hAttribute

end CappedPage

/- The lines end in another way when their caps change places. -/
theorem CappedPage.swapped_differs :
    ¬ ∀ (env : Environment ℚ) (st : RenderState ℚ)
        (content content' : List UInt8) (items items' : List Item),
      env.part? env.source = some content →
        readBytes env.source content = .ok items →
          readBytes env.source content' = .ok items' →
            Reorders items items' →
              Unreferring items →
                (env.readProfile content').toOption =
                    (env.readProfile content).toOption →
                  (Page.render env st).1 = .ok () →
                    (Page.render (env.rewritten content') st
                        ).2.surface.operations =
                      (Page.render env st).2.surface.operations := by
  intro hSame
  have hRead :
      readBytes "page" (content swapped) = .ok (items swapped) := by
    decide +kernel
  have hPerm : listed.Perm swapped := by
    decide +kernel
  have hDrawn :=
    hSame env start (content listed) (content swapped) (items listed)
      (items swapped) rfl read_listed hRead (reorders hPerm)
      unreferring rfl drawn
  have hCaps :
      (Page.render (env.rewritten (content swapped)) start
          ).2.surface.operations.toList ≠
        (Page.render env start).2.surface.operations.toList := by
    decide +kernel
  exact hCaps (congrArg Array.toList hDrawn)

/- They end as they did when only the other attributes do. -/
theorem CappedPage.moved_alike :
    (Page.render (env.rewritten (content moved)) start).1 = .ok () ∧
      (Page.render (env.rewritten (content moved)) start).2.surface =
        (Page.render env start).2.surface := by
  have hRead :
      readBytes "page" (content moved) = .ok (items moved) := by
    decide +kernel
  have hPerm : listed.Perm moved := by
    decide +kernel
  have hCaps : KeepsCaps (items listed) (items moved) := by
    refine .cons ?_ (.cons ?_ (.cons ?_ (.cons ?_ .nil)))
    · rintro _ _ _ _ ⟨⟩ ⟨⟩
      rfl
    · rintro _ _ _ _ ⟨⟩ ⟨⟩
      decide +kernel
    · rintro _ _ _ _ ⟨⟩ ⟨⟩
      rfl
    · rintro _ _ _ _ ⟨⟩ ⟨⟩
      rfl
  exact
    Page.render_reordered start rfl read_listed hRead (reorders hPerm)
      hCaps unreferring rfl drawn

end FixedPage
