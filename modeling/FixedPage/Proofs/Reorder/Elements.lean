import FixedPage.Proofs.Reorder.Attributes

/-
  This file starts two elements that list the same attributes in
  another order, in two states that may differ in the dictionaries
  in scope and in the order in which profiles were loaded. If the
  first one starts without a failure, so does the second one, and
  the states still agree.

  Main declarations:
    * `Abreast`
    * `Action.Repeats`
    * `Element.Reordered`
    * `Frame.Alike`
    * `startElement_repeats`
-/

namespace FixedPage

open Markup

variable {α : Type} [Scalar α]

------------------------------------------------------------
-- States
------------------------------------------------------------

omit [Scalar α] in
/- The environment of a package that holds other parts. -/
def Environment.repacked
    (env : Environment α)
    (parts : String → Option (List UInt8)) : Environment α :=
  { env with part? := parts }

/-
  Two states of rendering that differ only in the dictionaries in
  scope, which hold the markup of the page, and in the profiles,
  which are asked for in the order of the attributes.
-/
inductive Abreast
    (env : Environment α)
    (parts : String → Option (List UInt8)) :
    RenderState α → RenderState α → Prop
| intro
    (surface : Surface α)
    (scope scope' : ResourceScope)
    (depth : Nat)
    (fonts : Cache (Font α))
    (images : Cache (Image α))
    {profiles profiles' : ProfileCache α}
    (hProfiles :
      (env.repacked parts).profile? profiles' = env.profile? profiles) :
    Abreast env parts
      ⟨surface, scope, depth, fonts, images, profiles⟩
      ⟨surface, scope', depth, fonts, images, profiles'⟩

omit [Scalar α] in
/- The surfaces are the same. -/
theorem Abreast.surface_eq
    {env : Environment α}
    {parts : String → Option (List UInt8)}
    {st st' : RenderState α}
    (hStates : Abreast env parts st st') :
    st'.surface = st.surface := by
  cases hStates
  rfl

omit [Scalar α] in
/- So is what profiles there are. -/
theorem Abreast.profiles_eq
    {env : Environment α}
    {parts : String → Option (List UInt8)}
    {st st' : RenderState α}
    (hStates : Abreast env parts st st') :
    (env.repacked parts).profile? st'.profiles =
      env.profile? st.profiles := by
  rcases hStates with ⟨_, _, _, _, _, _, hProfiles⟩
  exact hProfiles

------------------------------------------------------------
-- Actions
------------------------------------------------------------

/- The second result is that of the first, if that is no failure. -/
def Except.Repeats
    {β : Type}
    (x x' : Except Error β) : Prop :=
  ∀ b, x = .ok b → x' = .ok b

namespace Except.Repeats

variable {β γ : Type} {x x' : Except Error β}

theorem refl
    (x : Except Error β) :
    Repeats x x :=
  fun _ hOk => hOk

theorem bind
    {f f' : β → Except Error γ}
    (hFirst : Repeats x x')
    (hNext : ∀ b, Repeats (f b) (f' b)) :
    Repeats (x >>= f) (x' >>= f') := by
  intro c hOk
  cases hResult : x with
  | error fault =>
      rw [hResult] at hOk
      cases hOk
  | ok b =>
      rw [hResult] at hOk
      rw [hFirst b hResult]
      exact hNext b c hOk

end Except.Repeats

/-
  The second run has come to what the first one has come to, if
  that is no failure.
-/
inductive Repeated
    {β γ : Type}
    (env : Environment α)
    (parts : String → Option (List UInt8))
    (R : β → γ → Prop) :
    Except Error β × RenderState α →
      Except Error γ × RenderState α → Prop
| ok
    {b : β}
    {c : γ}
    {st st' : RenderState α}
    (hResults : R b c)
    (hStates : Abreast env parts st st') :
    Repeated env parts R (.ok b, st) (.ok c, st')
| fault
    (fault : Error)
    (st : RenderState α)
    (outcome' : Except Error γ × RenderState α) :
    Repeated env parts R (.error fault, st) outcome'

/- The second action does what the first one does. -/
def Action.Repeats
    {β γ : Type}
    (env : Environment α)
    (parts : String → Option (List UInt8))
    (R : β → γ → Prop)
    (x : Action α β)
    (x' : Action α γ) : Prop :=
  ∀ st st',
    Abreast env parts st st' →
      Repeated env parts R (x.perform st) (x'.perform st')

namespace Action.Repeats

variable {β γ δ ε : Type} {env : Environment α}
variable {parts : String → Option (List UInt8)}
variable {R : β → γ → Prop} {S : δ → ε → Prop}

omit [Scalar α]

theorem pure
    {b : β}
    {c : γ}
    (hResults : R b c) :
    Repeats env parts R (Pure.pure b) (Pure.pure c) :=
  fun _ _ hStates => .ok hResults hStates

theorem fail
    (fault : Error)
    (x' : Action α γ) :
    Repeats env parts R (Action.fail fault) x' :=
  fun st st' _ => .fault fault st (x'.perform st')

/- What follows a failure does not matter. -/
theorem failThen
    (fault : Error)
    (f : δ → Action α β)
    (x' : Action α γ) :
    Repeats env parts R (Action.fail fault >>= f) x' := by
  intro st st' _
  rw [perform_bind, perform_fail]
  exact .fault fault st _

theorem bind
    {x : Action α β}
    {x' : Action α γ}
    {f : β → Action α δ}
    {f' : γ → Action α ε}
    (hFirst : Repeats env parts R x x')
    (hNext : ∀ b c, R b c → Repeats env parts S (f b) (f' c)) :
    Repeats env parts S (x >>= f) (x' >>= f') := by
  intro st st' hStates
  have hStep := hFirst st st' hStates
  rw [perform_bind, perform_bind]
  generalize x.perform st = outcome at hStep ⊢
  generalize x'.perform st' = outcome' at hStep ⊢
  cases hStep with
  | ok hResults hStates => exact hNext _ _ hResults _ _ hStates
  | fault fault st outcome' => exact .fault fault st _

/- The results are the same, and so is what follows. -/
theorem andThen
    {x x' : Action α β}
    {f : β → Action α δ}
    {f' : β → Action α ε}
    (hFirst : Repeats env parts Eq x x')
    (hNext : ∀ b, Repeats env parts S (f b) (f' b)) :
    Repeats env parts S (x >>= f) (x' >>= f') :=
  hFirst.bind fun b _ hSame => hSame ▸ hNext b

/- What is read in the same way. -/
theorem ofExcept
    {x x' : Except Error β}
    (hSame : Except.Repeats x x') :
    Repeats env parts Eq (Action.ofExcept x) (Action.ofExcept x') := by
  intro st st' hStates
  cases x with
  | error fault => exact .fault fault st _
  | ok b =>
      rw [hSame b rfl]
      exact .ok rfl hStates

theorem onError
    {x : Action α β}
    {x' : Action α γ}
    (undo undo' : RenderState α → RenderState α)
    (hSame : Repeats env parts R x x') :
    Repeats env parts R (x.onError undo) (x'.onError undo') := by
  intro st st' hStates
  have hStep := hSame st st' hStates
  rw [perform_onError, perform_onError]
  generalize x.perform st = outcome at hStep ⊢
  generalize x'.perform st' = outcome' at hStep ⊢
  cases hStep with
  | ok hResults hStates => exact .ok hResults hStates
  | fault fault st outcome' => exact .fault fault (undo st) _

theorem draw
    (f : Surface α → Surface α) :
    Repeats env parts Eq (Action.draw f) (Action.draw f) := by
  rintro _ _ ⟨surface, scope, scope', depth, fonts, images, hProfiles⟩
  exact .ok rfl (.intro _ _ _ _ _ _ hProfiles)

end Action.Repeats

section

variable {β : Type} {env : Environment α}
variable {parts : String → Option (List UInt8)}

/- Two actions that come to the same change. -/
theorem Action.Repeats.ofComesTo
    {b : β}
    {x x' : Action α β}
    (change? :
      (String → Option (Option (Color α))) → Option (Change α β))
    (hFirst :
      ∀ colors, Action.ComesTo env colors b x (change? colors))
    (hSecond :
      ∀ colors,
        Action.ComesTo (env.repacked parts) colors b x'
          (change? colors)) :
    Repeats env parts Eq x x' := by
  intro st st' hStates
  have hColors :
      (env.repacked parts).color? st'.profiles =
        env.color? st.profiles :=
    Environment.color?_congr rfl hStates.profiles_eq
  have hMade := hFirst _ st rfl
  have hMade' := hSecond _ st' rfl
  rw [hColors] at hMade'
  generalize x.perform st = outcome at hMade ⊢
  generalize x'.perform st' = outcome' at hMade' ⊢
  generalize change? (env.color? st.profiles) = c? at hMade hMade'
  cases hMade with
  | fault fault now => exact .fault fault now outcome'
  | ok c hProfiles =>
      cases hMade' with
      | ok _ hProfiles' =>
          rcases hStates with ⟨_, _, _, _, _, _, hSame⟩
          refine .ok rfl (.intro _ _ _ _ _ _ ?_)
          rw [hProfiles, hProfiles', hSame]

/- Attributes that are listed in another order. -/
theorem Action.Repeats.foldlM
    {step step' : β → Attribute → Action α β}
    (change? :
      (String → Option (Option (Color α))) →
        Attribute → Option (Change α β))
    {as as' : List Attribute}
    (hFirst :
      ∀ colors, ∀ a ∈ as, ∀ b,
        Action.ComesTo env colors b (step b a) (change? colors a))
    (hSecond :
      ∀ colors, ∀ a ∈ as', ∀ b,
        Action.ComesTo (env.repacked parts) colors b (step' b a)
          (change? colors a))
    (hOrder :
      ∀ colors,
        Change.all? (change? colors) as =
          Change.all? (change? colors) as')
    (b : β) :
    Repeats env parts Eq (as.foldlM step b) (as'.foldlM step' b) := by
  refine
    ofComesTo (fun colors => Change.all? (change? colors) as)
      (fun colors => .foldlM (hFirst colors) b) fun colors => ?_
  rw [hOrder colors]
  exact .foldlM (hSecond colors) b

end

------------------------------------------------------------
-- Elements
------------------------------------------------------------

/-
  Two elements that list the same attributes, each once and none
  of them a reference, in another order. The attribute that counts
  for the cap of the lines of a path counts in both.
-/
structure Element.Reordered
    (e e' : Element) : Prop where
  name : e'.name = e.name
  perm : e.attributes.Perm e'.attributes
  distinct : NamesDiffer e.attributes
  plain : ∀ a ∈ e.attributes, Value.resourceKey? a.value = none
  caps :
    e.name = "Path" →
      PathState.lastCap? e'.attributes =
        PathState.lastCap? e.attributes

namespace Element

variable {e e' : Element}

/- A value is read in the same way wherever it stands. -/
theorem read_repeats
    {β : Type}
    (e e' : Element)
    (name name' : String)
    (grammar : String → Option β)
    (value : String) :
    Except.Repeats (e.read name grammar value)
      (e'.read name' grammar value) := by
  unfold Element.read
  cases grammar value with
  | none =>
      rintro b ⟨⟩
  | some b => exact .refl _

namespace Reordered

/- The second element refers to nothing either. -/
theorem plain'
    (hReordered : e.Reordered e') :
    ∀ a ∈ e'.attributes, Value.resourceKey? a.value = none :=
  fun a hMem => hReordered.plain a (hReordered.perm.mem_iff.mpr hMem)

theorem value?_eq
    (hReordered : e.Reordered e')
    (name : String) :
    e'.value? name = e.value? name :=
  hReordered.distinct.valueOf?_perm hReordered.perm name

theorem lastValue?_eq
    (hReordered : e.Reordered e')
    (name : String) :
    PathFrame.lastValue? e' name = PathFrame.lastValue? e name := by
  have hDistinct' : NamesDiffer e'.attributes :=
    (hReordered.perm.pairwise_iff fun h => h.symm).mp
      hReordered.distinct
  unfold PathFrame.lastValue?
  rw [hDistinct'.findRev?_eq, hReordered.distinct.findRev?_eq]
  exact hReordered.value?_eq name

theorem required
    (hReordered : e.Reordered e')
    (name : String) :
    Except.Repeats (e.required name) (e'.required name) := by
  unfold Element.required
  rw [hReordered.value?_eq]
  cases e.value? name with
  | none => rintro b ⟨⟩
  | some value => exact .refl _

theorem readRequired
    {β : Type}
    (hReordered : e.Reordered e')
    (name : String)
    (grammar : String → Option β) :
    Except.Repeats (e.readRequired name grammar)
      (e'.readRequired name grammar) :=
  (hReordered.required name).bind
    fun value => read_repeats e e' name name grammar value

end Reordered

end Element

/- The attributes of an element are taken in another order. -/
theorem Action.Repeats.attributes
    {β : Type}
    {env : Environment α}
    {parts : String → Option (List UInt8)}
    {e e' : Element}
    {step step' : β → Attribute → Action α β}
    (change? :
      (String → Option (Option (Color α))) →
        Attribute → Option (Change α β))
    (hReordered : e.Reordered e')
    (hFirst :
      ∀ colors a b, Value.resourceKey? a.value = none →
        Action.ComesTo env colors b (step b a) (change? colors a))
    (hSecond :
      ∀ colors a b, Value.resourceKey? a.value = none →
        Action.ComesTo (env.repacked parts) colors b (step' b a)
          (change? colors a))
    {Changes : String → Change α β → Prop}
    (hChanges :
      ∀ {colors a c}, change? colors a = some c → Changes a.name c)
    (hCommute :
      ∀ {name name' c c'}, Changes name c → Changes name' c' →
        name ≠ name' → c.Commute c')
    (b : β) :
    Repeats env parts Eq (e.attributes.foldlM step b)
      (e'.attributes.foldlM step' b) := by
  refine foldlM change? ?_ ?_ ?_ b
  · intro colors a hMem b
    exact hFirst colors a b (hReordered.plain a hMem)
  · intro colors a hMem b
    exact hSecond colors a b (hReordered.plain' a hMem)
  · intro colors
    exact
      Change.all?_reorder hChanges hCommute hReordered.perm
        hReordered.distinct

section

variable {env : Environment α}
variable {parts : String → Option (List UInt8)}
variable {e e' : Element}

open FixedPage.Action

------------------------------------------------------------
-- Brushes
------------------------------------------------------------

/- A color is resolved. -/
theorem colorValue_repeats
    (e e' : Element)
    (name value : String) :
    Action.Repeats env parts Eq (colorValue env e name value)
      (colorValue (env.repacked parts) e' name value) := by
  exact
    Repeats.ofComesTo
      (fun colors =>
        (colors value).map fun color? => .set fun _ => color?)
      (fun _ => .colorOnly none) fun _ => .colorOnly none

theorem SolidBrush.read_repeats
    (hReordered : e.Reordered e') :
    Action.Repeats env parts Eq (SolidBrush.read env e)
      (SolidBrush.read (env.repacked parts) e') := by
  refine .andThen ?_ fun b => ?_
  · exact
      .attributes change? hReordered
        (fun _ _ b _ => takeAttribute_comes b)
        (fun _ _ b _ => takeAttribute_comes b)
        change?_changes Changes.commute ⟨none, 1⟩
  · exact
      .andThen (.ofExcept (hReordered.required "Color"))
        fun _ => .pure rfl

theorem BrushStyle.read_repeats
    (grammar : BrushGrammar)
    (extend : Extend)
    (hReordered : e.Reordered e') :
    Action.Repeats env parts Eq (BrushStyle.read env grammar extend e)
      (BrushStyle.read (env.repacked parts) grammar extend e') :=
  .attributes (fun _ => change? grammar) hReordered
    (fun _ _ s hPlain => takeAttribute_comes hPlain s)
    (fun _ _ s hPlain => takeAttribute_comes hPlain s)
    change?_changes Changes.commute _

theorem GradientShape.readLinear_repeats
    (hReordered : e.Reordered e') :
    Except.Repeats (GradientShape.readLinear (α := α) e)
      (GradientShape.readLinear e') :=
  (hReordered.required "StartPoint").bind fun start =>
    (hReordered.required "EndPoint").bind fun target =>
      (Element.read_repeats e e' _ _ _ start).bind fun _ =>
        (Element.read_repeats e e' _ _ _ target).bind fun _ => .refl _

theorem GradientShape.readRadial_repeats
    (hReordered : e.Reordered e') :
    Except.Repeats (GradientShape.readRadial (α := α) e)
      (GradientShape.readRadial e') :=
  (hReordered.readRequired "GradientOrigin" _).bind fun _ =>
    (hReordered.readRequired "Center" _).bind fun _ =>
      (hReordered.readRequired "RadiusX" _).bind fun _ =>
        (hReordered.readRequired "RadiusY" _).bind fun _ => .refl _

namespace GradientBrush

theorem read_repeats
    (course : List String)
    {shapeOf : Element → Except Error (GradientShape α)}
    (hShape : Except.Repeats (shapeOf e) (shapeOf e'))
    (hReordered : e.Reordered e') :
    Action.Repeats env parts Eq (GradientBrush.read env course shapeOf e)
      (GradientBrush.read (env.repacked parts) course shapeOf e') :=
  .andThen (BrushStyle.read_repeats _ _ hReordered) fun _ =>
    .andThen (.ofExcept hShape) fun _ => .pure rfl

/- The same attributes are known. -/
theorem readStop_repeats
    (hReordered : e.Reordered e') :
    Action.Repeats env parts Eq (readStop env e)
      (readStop (env.repacked parts) e') := by
  have hKnown :
      ∀ known : List String,
        (e.attributes.find? fun a => !known.contains a.name) = none →
          (e'.attributes.find? fun a => !known.contains a.name) =
            none := by
    intro known hAll
    rw [List.find?_eq_none] at hAll ⊢
    intro a hMem
    exact hAll a (hReordered.perm.mem_iff.mpr hMem)
  unfold readStop
  dsimp only
  cases hFound :
      e.attributes.find? fun a =>
        !(["Color", "Offset"].contains a.name)
    with
  | some a => exact .failThen _ _ _
  | none =>
      rw [hKnown _ hFound]
      refine .andThen (.ofExcept (hReordered.required _)) fun color => ?_
      refine
        .andThen (.ofExcept (hReordered.readRequired _ _))
          fun offset => ?_
      exact
        .andThen (colorValue_repeats e e' "Color" color)
          fun _ => .pure rfl

end GradientBrush

------------------------------------------------------------
-- Tiles
------------------------------------------------------------

theorem ImageBrush.read_repeats
    (hReordered : e.Reordered e') :
    Action.Repeats env parts Eq (ImageBrush.read env e)
      (ImageBrush.read (env.repacked parts) e') := by
  refine .andThen (BrushStyle.read_repeats _ _ hReordered) ?_
  intro style
  refine .ofExcept ?_
  refine (hReordered.required _).bind fun source => ?_
  refine (hReordered.required _).bind fun viewport => ?_
  refine (hReordered.required _).bind fun viewbox => ?_
  refine (Element.read_repeats e e' _ _ _ viewport).bind fun _ => ?_
  exact (Element.read_repeats e e' _ _ _ viewbox).bind fun _ => .refl _

namespace VisualBrush

theorem read_repeats
    (hReordered : e.Reordered e') :
    Action.Repeats env parts Eq (VisualBrush.read env e)
      (VisualBrush.read (env.repacked parts) e') := by
  refine .andThen (BrushStyle.read_repeats _ _ hReordered) ?_
  intro style
  refine .ofExcept ?_
  refine (hReordered.required _).bind fun viewport => ?_
  refine (hReordered.required _).bind fun viewbox => ?_
  refine (Element.read_repeats e e' _ _ _ viewport).bind fun _ => ?_
  exact (Element.read_repeats e e' _ _ _ viewbox).bind fun _ => .refl _

omit [Scalar α] in
theorem checkDepth_repeats
    (limit : Nat) :
    Action.Repeats env parts Eq (checkDepth (α := α) limit)
      (checkDepth limit) := by
  rintro _ _ ⟨surface, scope, scope', depth, fonts, images, hProfiles⟩
  unfold checkDepth
  rw [perform_ofEffect, perform_ofEffect]
  dsimp only
  split
  · exact .ok rfl (.intro _ _ _ _ _ _ hProfiles)
  · exact .fault _ _ _

theorem begin_repeats
    (hReordered : e.Reordered e') :
    Action.Repeats env parts Eq (VisualBrush.begin env e)
      (VisualBrush.begin (env.repacked parts) e') := by
  refine .andThen (checkDepth_repeats _) fun _ => ?_
  refine .andThen (read_repeats hReordered) fun v => ?_
  refine .andThen ?_ fun _ => .pure rfl
  rintro _ _ ⟨surface, scope, scope', depth, fonts, images, hProfiles⟩
  exact .ok rfl (.intro _ _ _ _ _ _ hProfiles)

end VisualBrush

/- A brush starts. -/
theorem startBrush_repeats
    (pattern? : Option (Pattern α))
    (hReordered : e.Reordered e') :
    Action.Repeats env parts Eq (startBrush env pattern? e)
      (startBrush (env.repacked parts) pattern? e') := by
  have hLinear :=
    GradientShape.readLinear_repeats (α := α) hReordered
  have hRadial :=
    GradientShape.readRadial_repeats (α := α) hReordered
  unfold startBrush
  rw [hReordered.name]
  split
  · exact
      .andThen (SolidBrush.read_repeats hReordered) fun _ => .pure rfl
  · exact
      .andThen (GradientBrush.read_repeats _ hLinear hReordered)
        fun _ => .pure rfl
  · exact
      .andThen (GradientBrush.read_repeats _ hRadial hReordered)
        fun _ => .pure rfl
  · exact
      .andThen (ImageBrush.read_repeats hReordered) fun _ => .pure rfl
  · exact
      .andThen (VisualBrush.begin_repeats hReordered) fun _ => .pure rfl
  · exact .fail _ _

------------------------------------------------------------
-- Content
------------------------------------------------------------

/- Path data is drawn. -/
theorem drawData_repeats
    (data : String) :
    Action.Repeats env parts Eq (drawData (α := α) data)
      (drawData data) := by
  rintro _ _ ⟨surface, scope, scope', depth, fonts, images, hProfiles⟩
  unfold drawData
  rw [perform_ofEffect, perform_ofEffect]
  dsimp only
  rcases surface.drawData data with ⟨_ | fault, drawn⟩
  · exact .ok rfl (.intro _ _ _ _ _ _ hProfiles)
  · exact .fault _ _ _

theorem clipToAny_repeats
    (data? : Option String) :
    Action.Repeats env parts Eq (clipToAny (α := α) data?)
      (clipToAny data?) := by
  cases data? with
  | none => exact .pure rfl
  | some data =>
      exact
        .andThen (.draw _) fun _ =>
          .andThen (drawData_repeats data) fun _ => .draw _

theorem CanvasFrame.begin_repeats
    (lookup lookup' : BrushLookup α)
    (hReordered : e.Reordered e') :
    Action.Repeats env parts Eq (CanvasFrame.begin env lookup e)
      (CanvasFrame.begin (env.repacked parts) lookup' e') := by
  refine .andThen (.draw _) fun _ => ?_
  refine .andThen (.onError _ _ ?_) fun style => ?_
  · refine .andThen ?_ fun s => ?_
    · exact
        .attributes CanvasStyle.change? hReordered
          (fun _ _ s hPlain => CanvasStyle.takeAttribute_comes hPlain s)
          (fun _ _ s hPlain => CanvasStyle.takeAttribute_comes hPlain s)
          CanvasStyle.change?_changes CanvasStyle.Changes.commute _
    · exact .andThen (clipToAny_repeats _) fun _ => .pure rfl
  · exact .andThen (.draw _) fun _ => .pure rfl

theorem PathFrame.begin_repeats
    (lookup lookup' : BrushLookup α)
    (hReordered : e.Reordered e')
    (hPath : e.name = "Path") :
    Action.Repeats env parts Eq (PathFrame.begin env lookup e)
      (PathFrame.begin (env.repacked parts) lookup' e') := by
  refine .andThen (.draw _) fun _ => ?_
  refine .andThen (.onError _ _ ?_) fun state => ?_
  · refine .foldlM PathState.change? ?_ ?_ ?_ _
    · intro colors a hMem state
      exact
        PathState.takeAttribute_comes (hReordered.plain a hMem) state
    · intro colors a hMem state
      exact
        PathState.takeAttribute_comes (hReordered.plain' a hMem) state
    · intro colors
      exact
        PathState.all?_reorder hReordered.perm hReordered.distinct
          (hReordered.caps hPath)
  · exact .andThen (.draw _) fun _ => .pure rfl

theorem GlyphRun.read_repeats
    (hReordered : e.Reordered e') :
    Except.Repeats (GlyphRun.read env e)
      (GlyphRun.read (env.repacked parts) e') := by
  refine (hReordered.required _).bind fun font => ?_
  refine (hReordered.required _).bind fun emSize => ?_
  refine (hReordered.required _).bind fun originX => ?_
  refine (hReordered.required _).bind fun originY => ?_
  refine (Element.read_repeats e e' _ _ _ emSize).bind fun _ => ?_
  refine (Element.read_repeats e e' _ _ _ originX).bind fun _ => ?_
  exact (Element.read_repeats e e' _ _ _ originY).bind fun _ => .refl _

theorem GlyphsFrame.begin_repeats
    (lookup lookup' : BrushLookup α)
    (hReordered : e.Reordered e') :
    Action.Repeats env parts Eq (GlyphsFrame.begin env lookup e)
      (GlyphsFrame.begin (env.repacked parts) lookup' e') := by
  refine .andThen (.ofExcept (GlyphRun.read_repeats hReordered)) ?_
  intro run
  refine .andThen (.draw _) fun _ => ?_
  refine .andThen (.onError _ _ ?_) fun run => ?_
  · exact
      .attributes GlyphRun.change? hReordered
        (fun _ _ s hPlain => GlyphRun.takeAttribute_comes hPlain s)
        (fun _ _ s hPlain => GlyphRun.takeAttribute_comes hPlain s)
        GlyphRun.change?_changes GlyphRun.Changes.commute _
  · exact .andThen (.draw _) fun _ => .pure rfl

/- Content starts. -/
theorem startContent_repeats
    (lookup lookup' : BrushLookup α)
    (hReordered : e.Reordered e') :
    Action.Repeats env parts Eq (startContent env lookup e)
      (startContent (env.repacked parts) lookup' e') := by
  unfold startContent
  rw [hReordered.name]
  split
  · exact
      .andThen (CanvasFrame.begin_repeats lookup lookup' hReordered)
        fun _ => .pure rfl
  · rename_i hPath
    exact
      .andThen
        (PathFrame.begin_repeats lookup lookup' hReordered hPath)
        fun _ => .pure rfl
  · exact
      .andThen (GlyphsFrame.begin_repeats lookup lookup' hReordered)
        fun _ => .pure rfl
  · split
    · exact .fail _ _
    · rename_i hLax
      have hLax' : ¬ (env.repacked parts).options.strict = true := hLax
      rw [if_neg hLax']
      exact .pure rfl

omit [Scalar α] in
theorem openResources_repeats :
    Action.Repeats env parts Eq (openResources (α := α))
      openResources := by
  refine .andThen ?_ fun _ => .pure rfl
  rintro _ _ ⟨surface, scope, scope', depth, fonts, images, hProfiles⟩
  exact .ok rfl (.intro _ _ _ _ _ _ hProfiles)

/- An element starts on a page or inside a visual brush. -/
theorem ContentFrame.startChild_repeats
    (lookup lookup' : BrushLookup α)
    (f : ContentFrame α)
    (hReordered : e.Reordered e') :
    Action.Repeats env parts Eq (f.startChild env lookup e)
      (f.startChild (env.repacked parts) lookup' e') := by
  have hContent :
      Action.Repeats env parts Eq
        (do
          let child? ← startContent env lookup e
          pure (f, child?))
        (do
          let child? ← startContent (env.repacked parts) lookup' e'
          pure (f, child?)) :=
    .andThen (startContent_repeats lookup lookup' hReordered)
      fun _ => .pure rfl
  unfold startChild
  rw [hReordered.name]
  dsimp only
  split
  · exact .pure rfl
  · exact .andThen openResources_repeats fun _ => .pure rfl
  · split
    · exact .pure rfl
    · exact hContent
  · split
    · exact .pure rfl
    · exact hContent
  · exact hContent

/- An element starts inside a canvas. -/
theorem CanvasFrame.startChild_repeats
    (lookup lookup' : BrushLookup α)
    (f : CanvasFrame α)
    (hReordered : e.Reordered e') :
    Action.Repeats env parts Eq (f.startChild env lookup e)
      (f.startChild (env.repacked parts) lookup' e') := by
  unfold startChild
  rw [hReordered.name]
  split
  · exact .pure rfl
  · exact .pure rfl
  · exact .andThen openResources_repeats fun _ => .pure rfl
  · exact
      .andThen (startContent_repeats lookup lookup' hReordered)
        fun _ => .pure rfl

------------------------------------------------------------
-- Geometries
------------------------------------------------------------

namespace PathFrame

omit [Scalar α] in
theorem takeClip_eq
    (f : PathFrame α)
    (hReordered : e.Reordered e') :
    f.takeClip e' = f.takeClip e := by
  unfold takeClip
  rw [hReordered.value?_eq, hReordered.value?_eq]

theorem startGeometry_repeats
    (f : PathFrame α)
    (hReordered : e.Reordered e') :
    Action.Repeats env parts Eq (f.startGeometry env e)
      (f.startGeometry (env.repacked parts) e') := by
  unfold startGeometry
  rw [hReordered.lastValue?_eq]
  refine .andThen ?_ fun f => ?_
  · exact
      .attributes (fun _ => geometryChange?) hReordered
        (fun _ _ f hPlain => takeGeometryAttribute_comes hPlain f)
        (fun _ _ f hPlain => takeGeometryAttribute_comes hPlain f)
        geometryChange?_changes GeometryChanges.commute _
  · split
    · exact .pure rfl
    · exact
        .andThen (.draw _) fun _ =>
          .andThen (clipToAny_repeats _) fun _ => .pure rfl

/- An element starts inside a path. -/
theorem startChild_repeats
    (f : PathFrame α)
    (hReordered : e.Reordered e') :
    Action.Repeats env parts Eq (f.startChild env e)
      (f.startChild (env.repacked parts) e') := by
  unfold startChild
  rw [hReordered.name]
  split
  · exact .pure rfl
  · exact .pure rfl
  · exact .pure rfl
  · exact .pure rfl
  · exact .pure rfl
  · rw [takeClip_eq f hReordered]
    split
    · exact .pure rfl
    · exact startGeometry_repeats f hReordered
  · exact .pure rfl

end PathFrame

namespace GeometryFrame

theorem startFigure_repeats
    (f : GeometryFrame α)
    (hReordered : e.Reordered e') :
    Action.Repeats env parts Eq (Action.ofExcept (f.startFigure e))
      (Action.ofExcept (f.startFigure e')) := by
  unfold startFigure
  rw [ofExcept_bind, ofExcept_bind]
  refine .andThen (.ofExcept (hReordered.readRequired _ _)) ?_
  intro start
  dsimp only
  rw [ofExcept_bind, ofExcept_bind, ofExcept_foldlM, ofExcept_foldlM]
  refine .andThen ?_ fun _ => .pure rfl
  exact
    .attributes (fun _ => figureChange?) hReordered
      (fun _ _ s _ => takeFigureAttribute_comes s)
      (fun _ _ s _ => takeFigureAttribute_comes s)
      figureChange?_changes FigureChanges.commute _

theorem addSegment_repeats
    (f : GeometryFrame α)
    (hReordered : e.Reordered e') :
    Except.Repeats (f.addSegment e) (f.addSegment e') := by
  unfold addSegment
  rw [hReordered.value?_eq, hReordered.name]
  refine (hReordered.required _).bind fun value => ?_
  refine (Element.read_repeats e e' _ _ _ value).bind fun points => ?_
  cases f.figure.addPoints? e.name points with
  | none =>
      cases e.value? "IsStroked" with
      | none => rintro b ⟨⟩
      | some flag =>
          refine (Element.read_repeats e e' _ _ _ flag).bind ?_
          intro stroked
          cases stroked with
          | false => exact .refl _
          | true => rintro b ⟨⟩
  | some figure =>
      cases e.value? "IsStroked" with
      | none => exact .refl _
      | some flag =>
          exact
            (Element.read_repeats e e' _ _ _ flag).bind
              fun stroked => .refl _

/- An element starts inside a geometry. -/
theorem startChild_repeats
    (f : GeometryFrame α)
    (hReordered : e.Reordered e') :
    Action.Repeats env parts Eq (Action.ofExcept (f.startChild e))
      (Action.ofExcept (f.startChild e')) := by
  unfold startChild
  rw [hReordered.name]
  split
  · exact .pure rfl
  · rw [ofExcept_map, ofExcept_map]
    exact .andThen (startFigure_repeats f hReordered) fun _ => .pure rfl
  · rw [ofExcept_map, ofExcept_map]
    exact
      .andThen (.ofExcept (addSegment_repeats f hReordered))
        fun _ => .pure rfl
  · rw [ofExcept_map, ofExcept_map]
    exact
      .andThen (.ofExcept (addSegment_repeats f hReordered))
        fun _ => .pure rfl
  · rw [ofExcept_map, ofExcept_map]
    exact
      .andThen (.ofExcept (addSegment_repeats f hReordered))
        fun _ => .pure rfl
  · exact .pure rfl

end GeometryFrame

------------------------------------------------------------
-- Parts of brushes
------------------------------------------------------------

/- An element starts inside a gradient. -/
theorem GradientBrush.startChild_repeats
    (g : GradientBrush α)
    (hReordered : e.Reordered e') :
    Action.Repeats env parts Eq (g.startChild env e)
      (g.startChild (env.repacked parts) e') := by
  unfold startChild
  rw [hReordered.name]
  split
  · exact .pure rfl
  · exact .pure rfl
  · exact .pure rfl
  · exact .pure rfl
  · exact .andThen (readStop_repeats hReordered) fun _ => .pure rfl
  · exact .fail _ _

/- An element starts inside an image brush. -/
theorem ImageBrush.startChild_repeats
    (hReordered : e.Reordered e') :
    Except.Repeats (ImageBrush.startChild (α := α) e)
      (ImageBrush.startChild e') := by
  unfold startChild
  rw [hReordered.name]
  split
  · exact .refl _
  · rintro b ⟨⟩

/- An element starts inside a glyph run. -/
theorem GlyphsFrame.startChild_eq
    (hReordered : e.Reordered e') :
    GlyphsFrame.startChild (α := α) e' =
      GlyphsFrame.startChild e := by
  unfold startChild
  rw [hReordered.name]

/- The element of a matrix starts. -/
theorem startMatrix_repeats
    (m : Matrix α)
    (hReordered : e.Reordered e') :
    Action.Repeats env parts Eq (Action.ofExcept (startMatrix e m))
      (Action.ofExcept (startMatrix e' m)) := by
  unfold startMatrix
  rw [hReordered.name]
  split
  · rw [ofExcept_foldlM, ofExcept_foldlM]
    exact
      .attributes (fun _ => matrixChange?) hReordered
        (fun _ _ m _ => takeMatrixAttribute_comes m)
        (fun _ _ m _ => takeMatrixAttribute_comes m)
        matrixChange?_changes MatrixChanges.commute m
  · exact .fail _ _

------------------------------------------------------------
-- Frames
------------------------------------------------------------

/-
  Two frames are the same up to the markup of a dictionary entry,
  of which only the nesting counts.
-/
inductive Frame.Alike : Frame α → Frame α → Prop
| same
    (frame : Frame α) :
    Alike frame frame
| entry
    {entry entry' : ResourceEntry}
    (hNesting : entry'.nesting = entry.nesting) :
    Alike (.dictionary (some entry)) (.dictionary (some entry'))

/- An element has opened the same frame, inside one that is alike. -/
structure OpenedAlike
    (frames frames' : Frame α × Option (Frame α)) : Prop where
  frame : frames.1.Alike frames'.1
  child : frames'.2 = frames.2

omit [Scalar α] in
/- The frames are the same. -/
theorem OpenedAlike.same
    (frames : Frame α × Option (Frame α)) :
    OpenedAlike frames frames :=
  ⟨.same _, rfl⟩

/-
  An element starts inside a matrix or a dictionary, where it may
  not be reordered at all.
-/
theorem startStored_repeats
    {frame frame' : Frame α}
    (hFrames : frame.Alike frame')
    (hElements : e' = e ∨ e.Reordered e') :
    Action.Repeats env parts OpenedAlike (startStored frame e)
      (startStored frame' e') := by
  have hRequired :
      Except.Repeats (e.required keyAttribute)
        (e'.required keyAttribute) := by
    rcases hElements with rfl | hReordered
    · exact .refl _
    · exact hReordered.required keyAttribute
  cases hFrames with
  | entry hNesting =>
      refine .pure ⟨.entry ?_, rfl⟩
      exact congrArg (· + 1) hNesting
  | same =>
      unfold startStored
      split
      · rename_i m
        refine .andThen ?_ fun m => .pure (.same _)
        rcases hElements with rfl | hReordered
        · exact .ofExcept (.refl _)
        · exact startMatrix_repeats m hReordered
      · rename_i current?
        cases current? with
        | some entry => exact .pure ⟨.entry rfl, rfl⟩
        | none =>
            unfold startEntry
            dsimp only
            rw [ofExcept_bind, ofExcept_bind, bind_assoc, bind_assoc]
            refine .andThen (.ofExcept hRequired) fun key => ?_
            exact .pure ⟨.entry rfl, rfl⟩
      · exact .fail _ _

end

end FixedPage
