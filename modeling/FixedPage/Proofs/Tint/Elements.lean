import FixedPage.Proofs.Parallel.Opening
import FixedPage.Proofs.Tint.Origin

/-
  This file shows that frames hold only colors that come from where
  they may: elements that end keep it that way, and elements that
  start take their colors from attributes that are given, if they
  are offered themselves. Gradients hold their colors before they
  are multiplied by the opacity. What brushes are looked up is left
  open.

  Main declarations:
    * `GradientBrush.Sound`
    * `Frame.Sound`
    * `Product.Sound`
    * `Frame.endChild_sound`
    * `Frame.finish_meets`
    * `Frame.abort_sound`
    * `Opened`
    * `LooksUpTinted`
    * `startBrush_meets`
    * `startContent_meets`
-/

namespace FixedPage

open Markup

variable {α : Type} [Scalar α]

------------------------------------------------------------
-- Frames
------------------------------------------------------------

/- The stops of a gradient are resolved, its opacity is given. -/
structure GradientBrush.Sound
    (env : Environment α)
    (g : GradientBrush α) : Prop where
  stops :
    ∀ stop ∈ g.stops, ∃ literal, Dyed env literal stop.color
  opacity : Faded env g.opacity

/-
  The patterns and the gradient of a frame have their colors from
  where they may, and the entry under way has been recorded.
-/
def Frame.Sound
    (env : Environment α) : Frame α → Prop
| .gradient g => g.Sound env
| .dictionary (some entry) => Recorded env entry
| frame => AllTinted env frame.patterns

/- So have the patterns and the gradient of a product. -/
def Product.Sound
    (env : Environment α) : Product α → Prop
| .brush (.gradient g) => g.Sound env
| product => AllTinted env product.patterns

variable {env : Environment α}

/- The pattern of a gradient that is sound is tinted. -/
theorem GradientBrush.Sound.pattern
    {g : GradientBrush α}
    (hGradient : g.Sound env) :
    AllTinted env g.pattern?.toList := by
  have hStops :
      ∀ color ∈ g.paintedStops.map GradientStop.color,
        Tinted env color := by
    unfold paintedStops
    rw [List.map_map, List.forall_mem_map]
    intro stop hMem
    rcases hGradient.stops stop hMem with ⟨literal, hDyed⟩
    exact .faded hDyed hGradient.opacity
  intro p hMem
  rw [Option.mem_toList] at hMem
  unfold pattern? at hMem
  split at hMem
  · rcases Option.map_eq_some_iff.mp hMem with ⟨inverse, -, rfl⟩
    exact hStops
  · unfold radialPattern? at hMem
    split at hMem
    · cases hMem
    · rcases Option.map_eq_some_iff.mp hMem with ⟨inverse, -, rfl⟩
      exact hStops

------------------------------------------------------------
-- Ends of children
------------------------------------------------------------

section

variable {st : RenderState α} {product : Product α}
variable (hState : st.Sound env)
variable (name : String)

include hState

/- What a page or a visual brush makes of a child. -/
theorem ContentFrame.endChild_sound
    (f : ContentFrame α) :
    (f.endChild name product st).2.Sound env := by
  unfold endChild
  split
  · exact hState.popDictionaries _
  · exact hState
  · exact hState

/- What a canvas makes of a child. -/
theorem CanvasFrame.endChild_sound
    {f : CanvasFrame α}
    (hFrame : AllTinted env f.mask?.toList)
    (hProduct : AllTinted env product.patterns) :
    AllTinted env (f.endChild name product st).1.mask?.toList ∧
      (f.endChild name product st).2.Sound env := by
  unfold endChild
  split
  · exact ⟨hFrame, hState.draw fun _ hSound => hSound.transform _⟩
  · cases hTaken : takeMask f.mask? _ with
    | none => exact ⟨hFrame, hState⟩
    | some mask =>
        rw [takeMask_patterns hTaken] at hProduct
        exact
          ⟨hProduct, hState.draw fun _ => Surface.Sound.pushGroup⟩
  · exact ⟨hFrame, hState⟩

/- What a path makes of a child. -/
theorem PathFrame.endChild_sound
    {f : PathFrame α}
    (hFrame : AllTinted env f.state.patterns)
    (hProduct : AllTinted env product.patterns) :
    AllTinted env (f.endChild name product st).1.state.patterns ∧
      (f.endChild name product st).2.Sound env := by
  have hFill := hFrame.mono f.state.fill_subset
  have hStroke := hFrame.mono f.state.stroke_subset
  have hMask := hFrame.mono f.state.mask_subset
  unfold endChild
  split
  · exact
      ⟨AllTinted.of_path hProduct hStroke hMask, hState⟩
  · exact ⟨AllTinted.of_path hFill hProduct hMask, hState⟩
  · split
    · exact ⟨AllTinted.of_path hFill hStroke hProduct, hState⟩
    · exact ⟨hFrame, hState⟩
  · exact ⟨hFrame, hState.draw fun _ hSound => hSound.transform _⟩
  · exact ⟨hProduct, hState⟩
  · exact ⟨hFrame, hState⟩
  · exact ⟨hFrame, hState⟩

/- What a geometry makes of a child. -/
theorem GeometryFrame.endChild_sound
    {f : GeometryFrame α}
    (hFrame : AllTinted env f.state.patterns) :
    AllTinted env (f.endChild name product st).1.state.patterns ∧
      (f.endChild name product st).2.Sound env := by
  unfold endChild
  split
  · exact ⟨hFrame, hState.draw fun _ hSound => hSound.transform _⟩
  · exact
      ⟨hFrame,
        { hState with surface := hState.surface.paintPath hFrame _ _ }⟩
  · exact ⟨hFrame, hState⟩

/- What a glyph run makes of a child. -/
theorem GlyphsFrame.endChild_sound
    {f : GlyphsFrame α}
    (hFrame : AllTinted env f.run.patterns)
    (hProduct : AllTinted env product.patterns) :
    AllTinted env (f.endChild name product st).1.run.patterns ∧
      (f.endChild name product st).2.Sound env := by
  have hFill := hFrame.mono f.run.fill_subset
  have hMask := hFrame.mono f.run.mask_subset
  unfold endChild
  split
  · exact ⟨hFrame, hState.draw fun _ hSound => hSound.transform _⟩
  · exact ⟨AllTinted.append_iff.mpr ⟨hProduct, hMask⟩, hState⟩
  · cases hTaken : takeMask f.run.mask? _ with
    | none => exact ⟨hFrame, hState⟩
    | some mask =>
        rw [takeMask_patterns hTaken] at hProduct
        exact
          ⟨AllTinted.append_iff.mpr ⟨hFill, hProduct⟩,
            hState.draw fun _ => Surface.Sound.pushGroup⟩
  · exact ⟨hFrame, hState⟩

/- An image has no colors of its own, and neither has its group. -/
theorem ImageBrush.resolve_sound
    (i : ImageBrush α) :
    AllTinted env (i.resolve env st).1.toList ∧
      (i.resolve env st).2.Sound env := by
  have hLoaded :
      RenderState.Sound env
        { st with
          images := (st.images.getOrLoad env.loadImage i.source).2 } :=
    { hState with }
  unfold resolve
  dsimp only
  split
  · exact ⟨.nil, hLoaded⟩
  · split
    · exact ⟨.nil, hLoaded⟩
    · rename_i pattern hPattern
      have hColors : AllTinted env [pattern] := by
        rcases Option.map_eq_some_iff.mp hPattern with ⟨m, -, rfl⟩
        exact AllTinted.singleton_iff.mpr nofun
      split
      · exact ⟨hColors, hLoaded⟩
      · refine ⟨AllTinted.singleton_iff.mpr nofun, ?_⟩
        exact
          { hLoaded with
            surface :=
              ((hState.surface.pushGroup.setSource hColors).record
                .nil).closeGroup }

/- Neither has the group of a visual brush. -/
theorem VisualBrush.resolve_sound
    (v : VisualBrush α) :
    AllTinted env [(v.resolve st.surface).1] ∧
      RenderState.Sound env
        { st with surface := (v.resolve st.surface).2 } := by
  refine ⟨AllTinted.singleton_iff.mpr ?_, ?_⟩
  · change ∀ color ∈ (v.place st.surface.popGroup.1).kind.colors, _
    unfold place
    dsimp only
    split <;> exact nofun
  · exact
      { hState with surface := hState.surface.closeGroup.restore }

/- What the brush of a property makes of its element. -/
theorem endBrush_sound
    {pattern? : Option (Pattern α)}
    (hFrame : AllTinted env pattern?.toList)
    (hProduct : product.Sound env) :
    AllTinted env (endBrush env pattern? product st).1.toList ∧
      (endBrush env pattern? product st).2.Sound env := by
  unfold endBrush
  cases product with
  | brush b =>
      cases b with
      | gradient g =>
          exact ⟨GradientBrush.Sound.pattern hProduct, hState⟩
      | image i => exact i.resolve_sound hState
  | visual v => exact v.resolve_sound hState
  | _ => exact ⟨hFrame, hState⟩

/- What a dictionary makes of the end of an element. -/
theorem endEntry_sound
    {current? : Option ResourceEntry}
    (hFrame : Frame.Sound env (.dictionary current?))
    (hTag : Offered env (.endTag name)) :
    Frame.Sound env (.dictionary (endEntry current? name st).1) ∧
      (endEntry current? name st).2.Sound env := by
  unfold endEntry
  cases current? with
  | none => exact ⟨AllTinted.nil, hState⟩
  | some entry =>
      dsimp only
      cases hEnd : entry.endElement? name with
      | some entry' => exact ⟨.endElement hFrame hTag hEnd, hState⟩
      | none => exact ⟨AllTinted.nil, hState.set hFrame⟩

/- What any frame makes of the product of a child. -/
theorem Frame.endChild_sound
    {frame : Frame α}
    (hFrame : frame.Sound env)
    (hProduct : product.Sound env)
    (hTag : Offered env (.endTag name)) :
    (frame.endChild env name product st).1.Sound env ∧
      (frame.endChild env name product st).2.Sound env := by
  have hPatterns : AllTinted env product.patterns := by
    cases product with
    | brush b => exact .nil
    | _ => exact hProduct
  unfold Frame.endChild
  cases frame with
  | content f => exact ⟨AllTinted.nil, f.endChild_sound hState name⟩
  | canvas f => exact CanvasFrame.endChild_sound hState name hFrame hPatterns
  | path f => exact PathFrame.endChild_sound hState name hFrame hPatterns
  | geometry f => exact GeometryFrame.endChild_sound hState name hFrame
  | brush pattern? => exact endBrush_sound hState hFrame hProduct
  | gradient g =>
      refine ⟨?_, hState⟩
      change (g.endChild name product).Sound env
      unfold GradientBrush.endChild
      split
      · split
        · exact ⟨hFrame.stops, hFrame.opacity⟩
        · exact hFrame
      · exact hFrame
  | image i => exact ⟨AllTinted.nil, hState⟩
  | glyphs f => exact GlyphsFrame.endChild_sound hState name hFrame hPatterns
  | matrix m => exact ⟨AllTinted.nil, hState⟩
  | resources remote => exact ⟨AllTinted.nil, hState⟩
  | dictionary current? => exact endEntry_sound hState name hFrame hTag

end

------------------------------------------------------------
-- Ends
------------------------------------------------------------

/- A path is painted with its brushes. -/
theorem paintData_meets
    {state : PathState α}
    (hPatterns : AllTinted env state.patterns)
    (data : String) :
    Action.Meets env (fun _ => True) (paintData state data) := by
  unfold paintData
  refine .bind (.draw fun _ hSound => hSound.record .nil) fun _ _ =>
    .bind (clipToAny_meets state.clip?) fun _ _ => ?_
  dsimp only
  split
  · exact .fail _
  · exact .draw fun _ hSound => hSound.paintPath hPatterns _ _

/- A path ends. -/
theorem PathFrame.finish_meets
    {f : PathFrame α}
    (hFrame : AllTinted env f.state.patterns) :
    Action.Meets env (Product.Sound env) f.finish := by
  have hEnd :
      Action.Meets env (Product.Sound env)
        (do
          Action.draw fun s =>
            (onlyIf f.opacityGroup (paintGroup f.state.opacity)
              s).restore
          pure .none) :=
    .bind
      (.draw fun _ hSound =>
        (Surface.Sound.onlyIf f.opacityGroup
          (fun _ hSound => hSound.popGroupToSource.record .nil)
          hSound).restore)
      fun _ _ => .pure AllTinted.nil
  unfold finish
  dsimp only
  split
  · exact .bind (paintData_meets hFrame _) fun _ _ => hEnd
  · exact hEnd

/- A glyph run ends. -/
theorem GlyphsFrame.finish_meets
    {f : GlyphsFrame α}
    (hFrame : AllTinted env f.run.patterns) :
    Action.Meets env (Product.Sound env) (f.finish env) := by
  have hFill := hFrame.mono f.run.fill_subset
  have hMask := hFrame.mono f.run.mask_subset
  have hFont :
      Action.Meets env (fun _ => True) (f.run.loadFont env) :=
    fun _ hState => ⟨{ hState with }, fun _ _ => trivial⟩
  unfold finish
  refine .bind hFont fun font _ =>
    .bind (clipToAny_meets f.run.clip?) fun _ _ => ?_
  dsimp only
  split
  · exact .fail _
  · refine .bind (.draw fun s hSound => ?_) fun _ _ =>
      .pure AllTinted.nil
    have hShown
        (matrix : Matrix α)
        (layout : GlyphLayout α) :
        (f.run.show matrix layout s).Sound env := by
      unfold GlyphRun.show
      cases hIs : f.run.fill? with
      | none => exact hSound.record .nil
      | some fill =>
          rw [hIs] at hFill
          exact (hSound.setSource hFill).record .nil
    exact ((hShown _ _).paintGroups _ _ hMask _).restore

/- Any frame is finished into a product that is sound. -/
theorem Frame.finish_meets
    {frame : Frame α}
    (hFrame : frame.Sound env) :
    Action.Meets env (Product.Sound env) (frame.finish env) := by
  cases frame with
  | content f =>
      intro st hState
      have hDone := hState.popDictionaries f.dictionaries
      unfold finish
      rw [Action.perform_ofEffect]
      unfold ContentFrame.finish
      dsimp only
      cases f.visual? with
      | some v =>
          refine ⟨{ hDone with }, ?_⟩
          rintro _ ⟨⟩
          exact AllTinted.nil
      | none =>
          refine ⟨hDone, ?_⟩
          rintro _ ⟨⟩
          exact AllTinted.nil
  | canvas f =>
      refine .bind (.change fun st hState => ?_) fun _ _ =>
        .pure AllTinted.nil
      exact
        ((hState.draw fun _ hSound =>
          hSound.paintGroups _ _ hFrame _).popDictionaries _).draw
            fun _ => Surface.Sound.restore
  | path f => exact PathFrame.finish_meets hFrame
  | geometry f => exact .pure hFrame
  | brush pattern? => exact .pure hFrame
  | gradient g => exact .pure hFrame
  | image i => exact .pure AllTinted.nil
  | glyphs f => exact GlyphsFrame.finish_meets hFrame
  | matrix m => exact .pure AllTinted.nil
  | resources remote => exact .pure AllTinted.nil
  | dictionary current? => exact .pure AllTinted.nil

/- A frame that is given up paints its groups with nothing. -/
theorem Frame.abort_sound
    {st : RenderState α}
    (hState : st.Sound env)
    (frame : Frame α) :
    (frame.abort st).Sound env := by
  cases frame with
  | content f =>
      have hDone := hState.popDictionaries f.dictionaries
      unfold abort ContentFrame.abort
      dsimp only
      cases f.visual? with
      | some v =>
          exact
            { hDone with surface := hDone.surface.closeGroup.restore }
      | none => exact hDone
  | canvas f =>
      exact
        ((hState.draw fun _ hSound =>
          hSound.dropGroups _ _).popDictionaries _).draw
            fun _ => Surface.Sound.restore
  | path f =>
      exact
        hState.draw fun _ hSound =>
          (hSound.dropGroups false f.opacityGroup).restore
  | glyphs f =>
      exact
        hState.draw fun _ hSound => (hSound.dropGroups _ _).restore
  | _ => exact hState

------------------------------------------------------------
-- Results
------------------------------------------------------------

/- What an element that starts makes of the top frame. -/
def Opened
    (env : Environment α)
    {β : Type}
    (P : β → Prop)
    (opened : β × Option (Frame α)) : Prop :=
  P opened.1 ∧ ∀ child ∈ opened.2, child.Sound env

/- An element without a frame of its own. -/
theorem Opened.alone
    {β : Type}
    {P : β → Prop}
    {b : β}
    (hP : P b) :
    Opened env P (b, none) := by
  refine ⟨hP, ?_⟩
  intro child hMem
  cases hMem

/- An element that owns a frame. -/
theorem Opened.beside
    {β : Type}
    {P : β → Prop}
    {b : β}
    {child : Frame α}
    (hP : P b)
    (hChild : child.Sound env) :
    Opened env P (b, some child) := by
  refine ⟨hP, ?_⟩
  rintro _ ⟨⟩
  exact hChild

/- Brushes that are looked up are tinted. -/
def LooksUpTinted
    (env : Environment α)
    (lookup : BrushLookup α) : Prop :=
  ∀ key,
    Action.Meets env (fun pattern? => AllTinted env pattern?.toList)
      (lookup key)

------------------------------------------------------------
-- Values
------------------------------------------------------------

/- A transformation is read and applied. -/
theorem transformWith_meets
    (env : Environment α)
    {β : Type}
    {P : β → Prop}
    {b : β}
    (e : Element)
    (name value : String)
    (hP : P b) :
    Action.Meets env P
      (do
        let matrix ← transformValue env e name value
        Action.draw (Surface.transform matrix)
        pure b) :=
  .bind (.ofKeeps (transformValue_keeps env e name value)) fun m _ =>
    .bind (.draw fun _ hSound => hSound.transform m) fun _ _ =>
      .pure hP

section

variable (hReads : ReadsUnit env.readProfile)

include hReads

/- A color is resolved from a value that is given. -/
theorem colorValue_meets
    {e : Element}
    {name value : String}
    (hName : name ∈ colorAttributes)
    (hGiven : Given env ⟨name, value⟩) :
    Action.Meets env
      (fun color? => ∀ color ∈ color?, Dyed env value color)
      (colorValue env e name value) := by
  have hSource := Environment.profileSource_readsUnit hReads
  intro st hState
  have hDone :
      RenderState.Sound env
        { st with
          profiles :=
            (ColorLiteral.resolve (some env.profileSource) value
              st.profiles).2 } :=
    { hState with
      profiles :=
        ColorLiteral.resolve_holdsUnit value hState.profiles hSource }
  unfold colorValue
  rw [Action.perform_ofEffect]
  dsimp only
  split
  · rename_i color hOk
    refine ⟨hDone, ?_⟩
    rintro _ ⟨⟩ _ ⟨⟩
    exact ⟨⟨name, hName, hGiven⟩, st.profiles, hState.profiles, hOk⟩
  · exact ⟨hDone, nofun⟩
  · refine ⟨hDone, ?_⟩
    rintro _ ⟨⟩
    exact nofun

/- So is a brush, unless it is looked up. -/
theorem brushValue_meets
    {lookup : BrushLookup α}
    (hLookup : LooksUpTinted env lookup)
    {e : Element}
    {name value : String}
    (hName : name ∈ colorAttributes)
    (hGiven : Given env ⟨name, value⟩) :
    Action.Meets env (fun pattern? => AllTinted env pattern?.toList)
      (brushValue env lookup e name value) := by
  unfold brushValue
  split
  · exact hLookup _
  · refine (colorValue_meets hReads hName hGiven).thenPure ?_
    intro color? hDyed
    cases color? with
    | none => exact .nil
    | some color =>
        refine AllTinted.singleton_iff.mpr ?_
        intro _ hMem
        rw [List.mem_singleton.mp hMem]
        exact .plain (hDyed color rfl)

end

------------------------------------------------------------
-- Brushes
------------------------------------------------------------

/- An opacity is read from an attribute that is given. -/
theorem Faded.of_read
    {e : Element}
    {a : Attribute}
    {opacity : α}
    (hGiven : Given env a)
    (hName : a.name = "Opacity")
    (hRead : e.read a.name Value.number? a.value = .ok opacity) :
    Faded env opacity := by
  rcases a with ⟨name, value⟩
  cases hName
  exact .inr ⟨value, hGiven, Element.of_read hRead⟩

section

variable (hReads : ReadsUnit env.readProfile)
variable {e : Element}
variable (hTag : Offered env (.startTag e.name e.attributes))

include hTag

include hReads in
/- The color and the opacity of a brush of one color are given. -/
theorem SolidBrush.read_meets :
    Action.Meets env
      (fun b => AllTinted env b.pattern?.toList)
      (SolidBrush.read env e) := by
  let P (b : SolidBrush α) : Prop :=
    (∀ color ∈ b.color?, ∃ literal, Dyed env literal color) ∧
      Faded env b.opacity
  have hTake :
      ∀ b, ∀ a ∈ e.attributes,
        P b → Action.Meets env P (takeAttribute env e b a) := by
    intro b a hMem hBrush
    have hGiven : Given env a := .of_element hTag hMem
    rcases a with ⟨name, value⟩
    unfold takeAttribute
    split
    · rename_i hName
      cases hName
      refine (colorValue_meets hReads (by decide) hGiven).thenPure ?_
      intro color? hDyed
      exact ⟨fun color hIs => ⟨value, hDyed color hIs⟩, hBrush.2⟩
    · rename_i hName
      refine .readPure fun opacity hRead => ?_
      exact ⟨hBrush.1, .of_read hGiven hName hRead⟩
    · split
      · exact .pure hBrush
      · exact .fail _
  have hStart : P ⟨none, 1⟩ := ⟨nofun, .inl rfl⟩
  refine .bind (.foldlM hTake hStart) fun b hBrush => ?_
  refine .readPure fun _ _ => ?_
  rcases b with ⟨_ | color, opacity⟩
  · exact .nil
  · rcases hBrush.1 color rfl with ⟨literal, hDyed⟩
    refine AllTinted.singleton_iff.mpr fun _ hMem => ?_
    rw [List.mem_singleton.mp hMem]
    exact .faded hDyed hBrush.2

/- The opacity among the common attributes of a brush is given. -/
theorem BrushStyle.read_meets
    (grammar : BrushGrammar)
    (extend : Extend) :
    Action.Meets env (fun s => Faded env s.opacity)
      (BrushStyle.read env grammar extend e) := by
  have hTake :
      ∀ s, ∀ a ∈ e.attributes,
        Faded env s.opacity →
          Action.Meets env (fun s' => Faded env s'.opacity)
            (takeAttribute env grammar e s a) := by
    intro s a hMem hStyle
    unfold takeAttribute
    split
    · exact .pure hStyle
    · split
      · exact .pure hStyle
      · split
        · rename_i hName
          refine .readPure fun opacity hRead => ?_
          exact
            .of_read (.of_element hTag hMem) (beq_iff_eq.mp hName) hRead
        · split
          · exact
              .thenPure (.ofKeeps (transformValue_keeps env e _ _))
                fun _ _ => hStyle
          · exact .fail _
  exact .foldlM hTake (.inl rfl)

/- A gradient starts without stops. -/
theorem GradientBrush.read_meets
    (course : List String)
    (shapeOf : Element → Except Error (GradientShape α)) :
    Action.Meets env (GradientBrush.Sound env)
      (GradientBrush.read env course shapeOf e) :=
  .bind (BrushStyle.read_meets hTag _ _) fun _ hStyle =>
    .readPure fun _ _ => ⟨nofun, hStyle⟩

include hReads in
/- The color of a stop is given. -/
theorem GradientBrush.readStop_meets :
    Action.Meets env
      (fun stop? =>
        ∀ stop ∈ stop?, ∃ literal, Dyed env literal stop.color)
      (readStop env e) := by
  have hStop :
      Action.Meets env
        (fun stop? =>
          ∀ stop ∈ stop?, ∃ literal, Dyed env literal stop.color)
        (do
          let color ← Action.ofExcept (e.required "Color")
          let offset ←
            Action.ofExcept (e.readRequired "Offset" Value.number?)
          let color? ← colorValue env e "Color" color
          pure
            (color?.map fun color => GradientStop.mk offset color)) := by
    refine .bind (.ofExcept fun _ hOk => hOk) fun value hRequired => ?_
    refine .bind (.ofExcept fun _ hOk => hOk) fun offset _ => ?_
    have hGiven : Given env ⟨"Color", value⟩ :=
      .of_required hTag hRequired
    refine (colorValue_meets hReads (by decide) hGiven).thenPure ?_
    intro color? hDyed stop hMem
    rcases Option.map_eq_some_iff.mp hMem with ⟨color, hIs, rfl⟩
    exact ⟨value, hDyed color hIs⟩
  unfold readStop
  dsimp only
  split
  · exact .bind (P := fun _ => True) (.fail _) fun _ _ => hStop
  · exact hStop

include hReads in
/- An element starts inside a gradient. -/
theorem GradientBrush.startChild_meets
    {g : GradientBrush α}
    (hGradient : g.Sound env) :
    Action.Meets env (Opened env (GradientBrush.Sound env))
      (g.startChild env e) := by
  have hMatrix :
      Opened env (GradientBrush.Sound env)
        (g, some (.matrix .identity)) :=
    .beside hGradient AllTinted.nil
  unfold startChild
  split
  · exact .pure (.alone hGradient)
  · exact .pure (.alone hGradient)
  · exact .pure hMatrix
  · exact .pure hMatrix
  · refine (readStop_meets hReads hTag).thenPure ?_
    intro stop? hStop
    refine .alone ⟨?_, hGradient.opacity⟩
    rw [List.forall_mem_append]
    refine ⟨hGradient.stops, ?_⟩
    intro stop hMem
    exact hStop stop (Option.mem_toList.mp hMem)
  · exact .fail _

/- A visual brush shows its content, which has not started yet. -/
theorem VisualBrush.begin_meets :
    Action.Meets env (fun _ => True) (VisualBrush.begin env e) := by
  have hDepth :
      Action.Meets env (fun _ => True)
        (checkDepth (α := α) env.options.maxVisualDepth) := by
    intro st hState
    unfold checkDepth
    rw [Action.perform_ofEffect]
    split
    · exact ⟨hState, fun _ _ => trivial⟩
    · exact ⟨hState, nofun⟩
  have hRead :
      Action.Meets env (fun _ => True) (VisualBrush.read env e) :=
    .bind (BrushStyle.read_meets hTag _ _) fun _ _ =>
      .ofExcept fun _ _ => trivial
  unfold begin
  refine .bind hDepth fun _ _ => .bind hRead fun v _ => ?_
  refine .bind (.change fun st hState => ?_) fun _ _ => .pure trivial
  have hBox :
      (st.surface.save.newPath.rectangle
        ⟨0, 0, v.width, v.height⟩).Sound env :=
    hState.surface.save.newPath.takeAll _
  refine { hState with surface := ?_ }
  change (v.fitViewbox _).Sound env
  unfold fitViewbox
  split
  · exact hBox.clip.pushGroup
  · exact (hBox.clip.pushGroup.transform _).transform _

include hReads in
/- The element of a brush starts. -/
theorem startBrush_meets
    {pattern? : Option (Pattern α)}
    (hFrame : AllTinted env pattern?.toList) :
    Action.Meets env
      (Opened env fun pattern? => AllTinted env pattern?.toList)
      (startBrush env pattern? e) := by
  unfold startBrush
  split
  · exact
      (SolidBrush.read_meets hReads hTag).thenPure fun _ hBrush =>
        .alone hBrush
  · exact
      (GradientBrush.read_meets hTag _ _).thenPure fun _ hGradient =>
        .beside hFrame hGradient
  · exact
      (GradientBrush.read_meets hTag _ _).thenPure fun _ hGradient =>
        .beside hFrame hGradient
  · have hRead :
        Action.Meets env (fun _ => True) (ImageBrush.read env e) :=
      .bind (BrushStyle.read_meets hTag _ _) fun _ _ =>
        .ofExcept fun _ _ => trivial
    exact hRead.thenPure fun _ _ => .beside hFrame AllTinted.nil
  · exact
      (VisualBrush.begin_meets hTag).thenPure fun _ _ =>
        .beside hFrame AllTinted.nil
  · exact .fail _

------------------------------------------------------------
-- Paths
------------------------------------------------------------

variable {lookup : BrushLookup α}
variable (hLookup : LooksUpTinted env lookup)

include hReads hLookup in
/- An attribute of a path is taken. -/
theorem PathState.takeAttribute_meets
    {state : PathState α}
    {a : Attribute}
    (hMem : a ∈ e.attributes)
    (hState : AllTinted env state.patterns) :
    Action.Meets env
      (fun state' : PathState α => AllTinted env state'.patterns)
      (takeAttribute env lookup e state a) := by
  have hGiven : Given env a := .of_element hTag hMem
  have hFill := hState.mono state.fill_subset
  have hStroke := hState.mono state.stroke_subset
  have hMask := hState.mono state.mask_subset
  have hBrush (hName : a.name ∈ colorAttributes) :=
    brushValue_meets hReads hLookup hName hGiven (e := e)
  unfold takeAttribute
  split
  · exact
      .thenPure (.ofKeeps (geometryValue_keeps env _)) fun _ _ => hState
  · exact
      .thenPure (.ofKeeps (geometryValue_keeps env _)) fun _ _ => hState
  · refine transformWith_meets env e _ _ ?_
    exact hState
  · rename_i hName
    refine (hBrush (by rw [hName]; decide)).thenPure ?_
    exact fun _ hNew => .of_path hNew hStroke hMask
  · rename_i hName
    refine (hBrush (by rw [hName]; decide)).thenPure ?_
    exact fun _ hNew => .of_path hFill hNew hMask
  · rename_i hName
    refine (hBrush (by rw [hName]; decide)).thenPure ?_
    exact fun _ hNew => .of_path hFill hStroke hNew
  · exact .readPure fun _ _ => hState
  · split
    · exact .pure hState
    · exact .readPure fun _ _ => hState

include hReads hLookup in
/- A path starts. -/
theorem PathFrame.begin_meets :
    Action.Meets env (fun f => AllTinted env f.state.patterns)
      (PathFrame.begin env lookup e) := by
  unfold begin
  refine .bind (.draw fun _ => Surface.Sound.save) fun _ _ => ?_
  have hInitial :
      AllTinted env (PathState.initial : PathState α).patterns :=
    .nil
  have hTake :=
    Action.Meets.foldlM
      (fun _ _ hMem hState =>
        PathState.takeAttribute_meets hReads hTag hLookup hMem hState)
      hInitial
  refine .bind hTake.onError fun state hState => ?_
  refine .bind (.draw fun _ hSound => ?_) fun _ _ => .pure hState
  exact .onlyIf _ (fun _ => Surface.Sound.pushGroup) hSound

omit hTag in
/- The geometry of a path starts. -/
theorem PathFrame.startGeometry_meets
    {f : PathFrame α}
    (hFrame : AllTinted env f.state.patterns) :
    Action.Meets env
      (Opened env fun f' : PathFrame α =>
        AllTinted env f'.state.patterns)
      (f.startGeometry env e) := by
  have hTake :
      ∀ f : PathFrame α, ∀ a ∈ e.attributes,
        AllTinted env f.state.patterns →
          Action.Meets env
            (fun f' : PathFrame α => AllTinted env f'.state.patterns)
            (takeGeometryAttribute env e f a) := by
    intro f a _ hFrame
    unfold takeGeometryAttribute
    split
    · exact .pure hFrame
    · refine transformWith_meets env e _ _ ?_
      exact hFrame
    · exact .pure hFrame
  unfold startGeometry
  refine .bind (.foldlM hTake hFrame) fun f' hRead => ?_
  split
  · exact .pure (.alone hRead)
  · refine .bind (.draw fun _ hSound => hSound.record .nil)
      fun _ _ => ?_
    refine .bind (clipToAny_meets f'.state.clip?) fun _ _ => .pure ?_
    exact .beside AllTinted.nil hRead

omit hTag in
/- An element inside a path starts. -/
theorem PathFrame.startChild_meets
    {f : PathFrame α}
    (hFrame : AllTinted env f.state.patterns) :
    Action.Meets env
      (Opened env fun f' : PathFrame α =>
        AllTinted env f'.state.patterns)
      (f.startChild env e) := by
  unfold startChild
  split
  · exact .pure (.beside hFrame AllTinted.nil)
  · exact .pure (.beside hFrame AllTinted.nil)
  · exact .pure (.beside hFrame AllTinted.nil)
  · exact .pure (.beside hFrame AllTinted.nil)
  · exact .pure (.alone hFrame)
  · split
    · refine .pure (.alone ?_)
      rw [takeClip_patterns]
      exact hFrame
    · exact startGeometry_meets hFrame
  · exact .pure (.alone hFrame)

omit hTag in
/- An element inside a geometry starts. -/
theorem GeometryFrame.startChild_meets
    {f : GeometryFrame α}
    (hFrame : AllTinted env f.state.patterns) :
    Action.Meets env
      (Opened env fun f' : GeometryFrame α =>
        AllTinted env f'.state.patterns)
      (Action.ofExcept (f.startChild e)) := by
  refine .ofExcept ?_
  rintro ⟨f', child?⟩ hOk
  rcases flagged_of_startChild hOk with
    ⟨⟨isClosed, isFilled, hState⟩, rfl | rfl⟩
  · refine .alone ?_
    rw [hState]
    exact hFrame
  · refine .beside ?_ AllTinted.nil
    rw [hState]
    exact hFrame

------------------------------------------------------------
-- Glyph runs
------------------------------------------------------------

include hReads hLookup in
/- An attribute of a glyph run is taken. -/
theorem GlyphRun.takeAttribute_meets
    {run : GlyphRun α}
    {a : Attribute}
    (hMem : a ∈ e.attributes)
    (hRun : AllTinted env run.patterns) :
    Action.Meets env
      (fun run' : GlyphRun α => AllTinted env run'.patterns)
      (takeAttribute env lookup e run a) := by
  have hGiven : Given env a := .of_element hTag hMem
  have hFill := hRun.mono run.fill_subset
  have hMask := hRun.mono run.mask_subset
  have hBrush (hName : a.name ∈ colorAttributes) :=
    brushValue_meets hReads hLookup hName hGiven (e := e)
  unfold takeAttribute
  split
  · exact .pure hRun
  · exact .pure hRun
  · rename_i hName
    refine (hBrush (by rw [hName]; decide)).thenPure ?_
    exact fun _ hNew => AllTinted.append_iff.mpr ⟨hNew, hMask⟩
  · rename_i hName
    refine (hBrush (by rw [hName]; decide)).thenPure ?_
    exact fun _ hNew => AllTinted.append_iff.mpr ⟨hFill, hNew⟩
  · exact
      .thenPure (.ofKeeps (geometryValue_keeps env _)) fun _ _ => hRun
  · refine transformWith_meets env e _ _ ?_
    exact hRun
  · exact .readPure fun _ _ => hRun
  · exact .readPure fun _ _ => hRun
  · exact .pure hRun
  · exact .readPure fun _ _ => hRun
  · exact .pure hRun

include hReads hLookup in
/- A glyph run starts. -/
theorem GlyphsFrame.begin_meets :
    Action.Meets env (fun f => AllTinted env f.run.patterns)
      (GlyphsFrame.begin env lookup e) := by
  unfold begin
  refine .bind (.ofExcept fun _ hOk => hOk) fun run hRead => ?_
  refine .bind (.draw fun _ => Surface.Sound.save) fun _ _ => ?_
  have hInitial : AllTinted env run.patterns := by
    rw [GlyphRun.patterns_of_read e hRead]
    exact .nil
  have hTake :=
    Action.Meets.foldlM
      (fun _ _ hMem hRun =>
        GlyphRun.takeAttribute_meets hReads hTag hLookup hMem hRun)
      hInitial
  refine .bind hTake.onError fun run hRun => ?_
  refine .bind (.draw fun _ hSound => ?_) fun _ _ => .pure hRun
  exact
    .onlyIf _ (fun _ => Surface.Sound.pushGroup)
      (.onlyIf _ (fun _ => Surface.Sound.pushGroup) hSound)

------------------------------------------------------------
-- Content
------------------------------------------------------------

include hReads hLookup in
/- A canvas starts. -/
theorem CanvasFrame.begin_meets :
    Action.Meets env (fun f => AllTinted env f.mask?.toList)
      (CanvasFrame.begin env lookup e) := by
  have hTake :
      ∀ s : CanvasStyle α, ∀ a ∈ e.attributes,
        AllTinted env s.mask?.toList →
          Action.Meets env
            (fun s' : CanvasStyle α => AllTinted env s'.mask?.toList)
            (CanvasStyle.takeAttribute env lookup e s a) := by
    intro s a hMem hStyle
    have hGiven : Given env a := .of_element hTag hMem
    unfold CanvasStyle.takeAttribute
    split
    · refine transformWith_meets env e _ _ ?_
      exact hStyle
    · exact
        .thenPure (.ofKeeps (geometryValue_keeps env _)) fun _ _ =>
          hStyle
    · exact .readPure fun _ _ => hStyle
    · rename_i hName
      refine
        (brushValue_meets hReads hLookup (by rw [hName]; decide)
          hGiven).thenPure ?_
      exact fun _ hNew => hNew
    · exact .pure hStyle
  have hRead :
      Action.Meets env
        (fun s : CanvasStyle α => AllTinted env s.mask?.toList)
        (CanvasStyle.read env lookup e) := by
    refine .bind (.foldlM hTake AllTinted.nil) fun s hStyle => ?_
    exact .thenPure (clipToAny_meets s.clip?) fun _ _ => hStyle
  unfold begin
  refine .bind (.draw fun _ => Surface.Sound.save) fun _ _ => ?_
  refine .bind hRead.onError fun style hStyle => ?_
  refine .bind (.draw fun _ hSound => ?_) fun _ _ => .pure hStyle
  exact
    .onlyIf _ (fun _ => Surface.Sound.pushGroup)
      (.onlyIf _ (fun _ => Surface.Sound.pushGroup) hSound)

include hReads hLookup in
/- An element of content starts. -/
theorem startContent_meets :
    Action.Meets env (fun child? => ∀ child ∈ child?, child.Sound env)
      (startContent env lookup e) := by
  unfold startContent
  split
  · refine (CanvasFrame.begin_meets hReads hTag hLookup).thenPure ?_
    rintro f hFrame _ ⟨⟩
    exact hFrame
  · refine (PathFrame.begin_meets hReads hTag hLookup).thenPure ?_
    rintro f hFrame _ ⟨⟩
    exact hFrame
  · refine (GlyphsFrame.begin_meets hReads hTag hLookup).thenPure ?_
    rintro f hFrame _ ⟨⟩
    exact hFrame
  · split
    · exact .fail _
    · refine .pure ?_
      intro child hMem
      cases hMem

omit [Scalar α] hTag in
/- A dictionary that is opened is empty. -/
theorem openResources_meets
    [Scalar α]
    {env : Environment α} :
    Action.Meets env (Frame.Sound env) openResources := by
  refine .bind (.change fun st hState => ?_) fun _ _ =>
    .pure AllTinted.nil
  exact
    { hState with
      scope := List.forall_mem_cons.mpr ⟨nofun, hState.scope⟩ }

include hReads hLookup in
/- An element on a page or inside a visual brush starts. -/
theorem ContentFrame.startChild_meets
    (f : ContentFrame α) :
    Action.Meets env (Opened env fun _ => True)
      (f.startChild env lookup e) := by
  have hContent :
      Action.Meets env (Opened env fun _ => True)
        (do
          let child? ← startContent env lookup e
          pure (f, child?)) :=
    (startContent_meets hReads hTag hLookup).thenPure
      fun _ hChild => ⟨trivial, hChild⟩
  unfold startChild
  split
  · exact .pure (.alone trivial)
  · exact openResources_meets.thenPure fun _ => .beside trivial
  · split
    · exact .pure (.alone trivial)
    · exact hContent
  · split
    · exact .pure (.beside trivial AllTinted.nil)
    · exact hContent
  · exact hContent

include hReads hLookup in
/- An element inside a canvas starts. -/
theorem CanvasFrame.startChild_meets
    {f : CanvasFrame α}
    (hFrame : AllTinted env f.mask?.toList) :
    Action.Meets env
      (Opened env fun f' : CanvasFrame α =>
        AllTinted env f'.mask?.toList)
      (f.startChild env lookup e) := by
  unfold startChild
  split
  · exact .pure (.beside hFrame AllTinted.nil)
  · exact .pure (.beside hFrame AllTinted.nil)
  · exact
      openResources_meets.thenPure fun _ hChild =>
        .beside hFrame hChild
  · exact
      (startContent_meets hReads hTag hLookup).thenPure
        fun _ hChild => ⟨hFrame, hChild⟩

end

end FixedPage
