import FixedPage.Proofs.Markup.Names
import FixedPage.Proofs.Reorder.Change

/-
  This file says what each kind of element makes of its attributes
  and shows that it does not matter in which order they are listed.
  Attributes with different names come to changes that commute, but
  for the two that set the cap of the lines of a path: of these the
  last one counts.

  Main declarations:
    * `PathState.change?`
    * `PathState.lastCap?`
    * `PathState.all?_change`
    * `GlyphRun.change?`
    * `CanvasStyle.change?`
    * `BrushStyle.change?`
-/

namespace FixedPage

open Markup

variable {α : Type} [Scalar α]

------------------------------------------------------------
-- Names
------------------------------------------------------------

/- Whether an attribute sets the cap of lines. -/
def isCap
    (name : String) : Bool :=
  name == "StrokeStartLineCap" || name == "StrokeEndLineCap"

/- Attributes with different names that do not both set a cap. -/
structure Apart
    (name name' : String) : Prop where
  differ : name ≠ name'
  caps : isCap name = true → isCap name' = false

------------------------------------------------------------
-- Strokes
------------------------------------------------------------

namespace StrokeStyle

/- What an attribute changes of a stroke style. -/
def alter?
    (a : Attribute) : Option (StrokeStyle α → StrokeStyle α) :=
  match a.name with
  | "StrokeThickness" =>
      (Value.number? a.value).map fun width s =>
        { s with width := width }
  | "StrokeDashArray" =>
      (Value.dashes? a.value).map fun dash s => { s with dash := dash }
  | "StrokeDashOffset" =>
      (Value.number? a.value).map fun offset s =>
        { s with dashOffset := offset }
  | "StrokeStartLineCap"
  | "StrokeEndLineCap" =>
      some fun s => { s with cap := LineCap.ofName a.value }
  | "StrokeLineJoin" =>
      some fun s => { s with join := LineJoin.ofName a.value }
  | "StrokeMiterLimit" =>
      (Value.number? a.value).map fun limit s =>
        { s with miterLimit := limit }
  | _ => some id

/- What an attribute with a name may change of a stroke style. -/
inductive Alters : String → (StrokeStyle α → StrokeStyle α) → Prop
| width
    (width : α) :
    Alters "StrokeThickness" fun s => { s with width := width }
| dash
    (dash : List α) :
    Alters "StrokeDashArray" fun s => { s with dash := dash }
| dashOffset
    (offset : α) :
    Alters "StrokeDashOffset" fun s => { s with dashOffset := offset }
| cap
    {name : String}
    (hCap : isCap name = true)
    (cap : LineCap) :
    Alters name fun s => { s with cap := cap }
| join
    (join : LineJoin) :
    Alters "StrokeLineJoin" fun s => { s with join := join }
| miterLimit
    (limit : α) :
    Alters "StrokeMiterLimit" fun s => { s with miterLimit := limit }
| other
    (name : String) :
    Alters name id

theorem alter?_alters
    {a : Attribute}
    {f : StrokeStyle α → StrokeStyle α}
    (hIs : alter? a = some f) :
    Alters a.name f := by
  rcases a with ⟨name, value⟩
  unfold alter? at hIs
  dsimp only at hIs ⊢
  split at hIs
  · rcases Option.map_eq_some_iff.mp hIs with ⟨width, -, rfl⟩
    exact .width width
  · rcases Option.map_eq_some_iff.mp hIs with ⟨dash, -, rfl⟩
    exact .dash dash
  · rcases Option.map_eq_some_iff.mp hIs with ⟨offset, -, rfl⟩
    exact .dashOffset offset
  · cases hIs
    exact .cap rfl _
  · cases hIs
    exact .cap rfl _
  · cases hIs
    exact .join _
  · rcases Option.map_eq_some_iff.mp hIs with ⟨limit, -, rfl⟩
    exact .miterLimit limit
  · cases hIs
    exact .other _

omit [Scalar α] in
/- Attributes that stand apart change different things. -/
theorem Alters.comm
    {name name' : String}
    {f f' : StrokeStyle α → StrokeStyle α}
    (hFirst : Alters name f)
    (hSecond : Alters name' f')
    (hApart : Apart name name')
    (s : StrokeStyle α) :
    f' (f s) = f (f' s) := by
  cases hFirst with
  | cap hCap cap =>
      cases hSecond with
      | cap hCap' cap' =>
          rw [hApart.caps hCap] at hCap'
          cases hCap'
      | _ => rfl
  | other => rfl
  | _ =>
      cases hSecond <;>
        first
        | rfl
        | exact absurd rfl hApart.differ

/- A stroke style is read from an attribute, or it is no such one. -/
inductive Taken
    (s : StrokeStyle α) :
    Option (Except Error (StrokeStyle α)) →
      Option (StrokeStyle α → StrokeStyle α) → Prop
| other : Taken s none (some id)
| ok
    (f : StrokeStyle α → StrokeStyle α) :
    Taken s (some (.ok (f s))) (some f)
| fault
    (fault : Error) :
    Taken s (some (.error fault)) none

omit [Scalar α] in
/- A value that is read. -/
theorem Taken.read
    {β : Type}
    {s : StrokeStyle α}
    (e : Element)
    (name value : String)
    (grammar : String → Option β)
    (f : β → StrokeStyle α → StrokeStyle α) :
    Taken s
      (some do
        let c ← e.read name grammar value
        pure (f c s))
      ((grammar value).map f) := by
  unfold Element.read
  cases grammar value with
  | none => exact .fault _
  | some c => exact .ok (f c)

theorem takeAttribute?_taken
    (e : Element)
    (s : StrokeStyle α)
    (a : Attribute) :
    Taken s (s.takeAttribute? e a) (alter? a) := by
  rcases a with ⟨name, value⟩
  unfold takeAttribute? alter?
  dsimp only
  split
  · exact .read e _ value _ fun width s => { s with width := width }
  · exact .read e _ value _ fun dash s => { s with dash := dash }
  · exact
      .read e _ value _ fun offset s => { s with dashOffset := offset }
  · exact .ok fun s => { s with cap := LineCap.ofName value }
  · exact .ok fun s => { s with cap := LineCap.ofName value }
  · exact .ok fun s => { s with join := LineJoin.ofName value }
  · exact
      .read e _ value _ fun limit s => { s with miterLimit := limit }
  · repeat' first | contradiction | split
    exact .other

end StrokeStyle

------------------------------------------------------------
-- Paths
------------------------------------------------------------

variable {env : Environment α}
variable {colors : String → Option (Option (Color α))}
variable {a a' : Attribute} {as as' : List Attribute}

/- What a brush that is no reference paints with. -/
def solid?
    (colors : String → Option (Option (Color α)))
    (value : String) : Option (Option (Pattern α)) :=
  (colors value).map (Option.map Pattern.solid)

/- A brush that is no reference. -/
theorem Action.ComesTo.solid
    {β : Type}
    {b : β}
    {lookup : BrushLookup α}
    {e : Element}
    {name value : String}
    (hPlain : Value.resourceKey? value = none)
    (f : Option (Pattern α) → β → β) :
    ComesTo env colors b
      (do
        let pattern? ← brushValue env lookup e name value
        pure (f pattern? b))
      ((solid? colors value).map fun pattern? => .set (f pattern?)) := by
  unfold solid?
  rw [Option.map_map]
  exact brush hPlain f

namespace PathState

/- What an attribute of a path comes to. -/
def change?
    (colors : String → Option (Option (Color α)))
    (a : Attribute) : Option (Change α (PathState α)) :=
  match a.name with
  | "Data" => some (.set fun s => { s with data? := some a.value })
  | "Clip" => some (.set fun s => { s with clip? := some a.value })
  | "RenderTransform" => (Value.matrix? a.value).map .turn
  | "Fill" =>
      (solid? colors a.value).map fun pattern? =>
        .set fun s => { s with fill? := pattern? }
  | "Stroke" =>
      (solid? colors a.value).map fun pattern? =>
        .set fun s => { s with stroke? := pattern? }
  | "OpacityMask" =>
      (solid? colors a.value).map fun pattern? =>
        .set fun s => { s with mask? := pattern? }
  | "Opacity" =>
      (Value.number? a.value).map fun opacity =>
        .set fun s => { s with opacity := opacity }
  | _ =>
      (StrokeStyle.alter? a).map fun f =>
        .set fun s => { s with strokeStyle := f s.strokeStyle }

/- Taking an attribute comes to that change. -/
theorem takeAttribute_comes
    {lookup : BrushLookup α}
    {e : Element}
    (hPlain : Value.resourceKey? a.value = none)
    (state : PathState α) :
    Action.ComesTo env colors state
      (takeAttribute env lookup e state a) (change? colors a) := by
  rcases a with ⟨name, value⟩
  unfold takeAttribute change?
  dsimp only at hPlain ⊢
  split
  · exact
      .geometry hPlain fun data (s : PathState α) =>
        { s with data? := some data }
  · exact
      .geometry hPlain fun data (s : PathState α) =>
        { s with clip? := some data }
  · exact .turn hPlain
  · exact
      .solid hPlain fun p (s : PathState α) => { s with fill? := p }
  · exact
      .solid hPlain fun p (s : PathState α) => { s with stroke? := p }
  · exact
      .solid hPlain fun p (s : PathState α) => { s with mask? := p }
  · exact
      .read fun opacity (s : PathState α) =>
        { s with opacity := opacity }
  · have hTaken :=
      StrokeStyle.takeAttribute?_taken e state.strokeStyle
        ⟨name, value⟩
    generalize
      state.strokeStyle.takeAttribute? e ⟨name, value⟩ = taken?
      at hTaken ⊢
    generalize
      StrokeStyle.alter? (α := α) ⟨name, value⟩ = f?
      at hTaken ⊢
    cases hTaken with
    | other =>
        dsimp only
        repeat' first | contradiction | split
        exact .keep
    | ok f =>
        dsimp only
        repeat' first | contradiction | split
        exact
          .set fun s : PathState α =>
            { s with strokeStyle := f s.strokeStyle }
    | fault fault =>
        dsimp only
        repeat' first | contradiction | split
        exact .fail fault

/- What an attribute with a name may change of a path. -/
inductive Changes : String → Change α (PathState α) → Prop
| data
    (data? : Option String) :
    Changes "Data" (.set fun s => { s with data? := data? })
| clip
    (clip? : Option String) :
    Changes "Clip" (.set fun s => { s with clip? := clip? })
| turn
    (m : Matrix α) :
    Changes "RenderTransform" (.turn m)
| fill
    (pattern? : Option (Pattern α)) :
    Changes "Fill" (.set fun s => { s with fill? := pattern? })
| stroke
    (pattern? : Option (Pattern α)) :
    Changes "Stroke" (.set fun s => { s with stroke? := pattern? })
| mask
    (pattern? : Option (Pattern α)) :
    Changes "OpacityMask" (.set fun s => { s with mask? := pattern? })
| opacity
    (opacity : α) :
    Changes "Opacity" (.set fun s => { s with opacity := opacity })
| style
    {name : String}
    {f : StrokeStyle α → StrokeStyle α}
    (hAlters : StrokeStyle.Alters name f) :
    Changes name
      (.set fun s => { s with strokeStyle := f s.strokeStyle })

theorem change?_changes
    {c : Change α (PathState α)}
    (hIs : change? colors a = some c) :
    Changes a.name c := by
  rcases a with ⟨name, value⟩
  unfold change? at hIs
  dsimp only at hIs ⊢
  split at hIs
  · cases hIs
    exact .data _
  · cases hIs
    exact .clip _
  · rcases Option.map_eq_some_iff.mp hIs with ⟨m, -, rfl⟩
    exact .turn m
  · rcases Option.map_eq_some_iff.mp hIs with ⟨pattern?, -, rfl⟩
    exact .fill pattern?
  · rcases Option.map_eq_some_iff.mp hIs with ⟨pattern?, -, rfl⟩
    exact .stroke pattern?
  · rcases Option.map_eq_some_iff.mp hIs with ⟨pattern?, -, rfl⟩
    exact .mask pattern?
  · rcases Option.map_eq_some_iff.mp hIs with ⟨opacity, -, rfl⟩
    exact .opacity opacity
  · rcases Option.map_eq_some_iff.mp hIs with ⟨f, hAlter, rfl⟩
    exact .style (StrokeStyle.alter?_alters hAlter)

/- Attributes that stand apart change different things. -/
theorem Changes.commute
    {name name' : String}
    {c c' : Change α (PathState α)}
    (hFirst : Changes name c)
    (hSecond : Changes name' c')
    (hApart : Apart name name') :
    c.Commute c' := by
  cases hFirst with
  | style hAlters =>
      cases hSecond with
      | style hAlters' =>
          refine Change.ext (funext fun s => ?_) rfl
          exact
            congrArg (fun style => { s with strokeStyle := style })
              (hAlters.comm hAlters' hApart s.strokeStyle)
      | _ => rfl
  | _ =>
      cases hSecond <;>
        first
        | rfl
        | exact absurd rfl hApart.differ

------------------------------------------------------------
-- Caps
------------------------------------------------------------

/- The cap that the last attribute sets which sets one. -/
def lastCap?
    (as : List Attribute) : Option LineCap :=
  (as.findRev? fun a => isCap a.name).map fun a =>
    LineCap.ofName a.value

omit [Scalar α] in
theorem lastCap?_cons
    (a : Attribute)
    (as : List Attribute) :
    lastCap? (a :: as) =
      (lastCap? as).or
        (if isCap a.name then some (LineCap.ofName a.value)
        else none) := by
  unfold lastCap?
  rw [List.findRev?]
  cases as.findRev? fun a => isCap a.name with
  | none => cases isCap a.name <;> simp
  | some last => rfl

/- Sets the cap of the lines of a path, if there is one to set. -/
def capped
    (cap? : Option LineCap) : Change α (PathState α) :=
  match cap? with
  | none => .keep
  | some cap =>
      .set fun s =>
        { s with strokeStyle := { s.strokeStyle with cap := cap } }

/- What an attribute of a path comes to apart from caps. -/
def uncapped?
    (colors : String → Option (Option (Color α)))
    (a : Attribute) : Option (Change α (PathState α)) :=
  if isCap a.name then some .keep else change? colors a

/- What an attribute comes to that sets a cap. -/
theorem change?_cap
    (hCap : isCap a.name = true) :
    change? colors a =
      some (capped (some (LineCap.ofName a.value))) := by
  rcases a with ⟨name, value⟩
  unfold isCap at hCap
  rcases Bool.or_eq_true_iff.mp hCap with hName | hName
  · rw [beq_iff_eq] at hName
    cases hName
    rfl
  · rw [beq_iff_eq] at hName
    cases hName
    rfl

/- Caps may be set before or after all the rest. -/
theorem uncapped?_commute
    (cap : LineCap) :
    ∀ c ∈ uncapped? colors a, c.Commute (capped (some cap)) := by
  intro c hIs
  change uncapped? colors a = some c at hIs
  unfold uncapped? at hIs
  split at hIs
  · cases hIs
    exact .keep _
  · rename_i hOther
    have hSet :
        Changes (α := α) "StrokeEndLineCap" (capped (some cap)) :=
      .style (.cap rfl cap)
    refine (change?_changes hIs).commute hSet ?_
    refine ⟨?_, fun hCap => absurd hCap hOther⟩
    intro hName
    rw [hName] at hOther
    exact hOther rfl

/- Attributes with different names come to changes that commute. -/
theorem uncapped?_comm
    (hDiffer : a.name ≠ a'.name) :
    ∀ c ∈ uncapped? colors a, ∀ c' ∈ uncapped? colors a',
      c.Commute c' := by
  intro c hIs c' hIs'
  change uncapped? colors a = some c at hIs
  change uncapped? colors a' = some c' at hIs'
  unfold uncapped? at hIs hIs'
  split at hIs
  · cases hIs
    exact .keep _
  · rename_i hOther
    split at hIs'
    · cases hIs'
      exact (Change.Commute.keep c).symm
    · exact
        (change?_changes hIs).commute (change?_changes hIs')
          ⟨hDiffer, fun hCap => absurd hCap hOther⟩

/- The caps may be left to the end, where the last one counts. -/
theorem all?_change
    (as : List Attribute) :
    Change.all? (change? colors) as =
      (Change.all? (uncapped? colors) as).map fun c =>
        c.andThen (capped (lastCap? as)) := by
  induction as with
  | nil => rfl
  | cons a as ih =>
      have hCommute :
          ∀ rest ∈ Change.all? (uncapped? colors) as,
            rest.Commute (capped (some (LineCap.ofName a.value))) :=
        Change.all?_commute fun a _ => uncapped?_commute _
      unfold Change.all?
      rw [ih, lastCap?_cons]
      by_cases hCap : isCap a.name = true
      · have hFirst : uncapped? colors a = some .keep := if_pos hCap
        rw [change?_cap hCap, hFirst, if_pos hCap]
        cases hRest : Change.all? (uncapped? colors) as with
        | none => rfl
        | some rest =>
            have hSwap := hCommute rest hRest
            refine congrArg some ?_
            calc
              (capped (some (LineCap.ofName a.value))).andThen
                    (rest.andThen (capped (lastCap? as)))
              _ =
                  ((capped (some (LineCap.ofName a.value))).andThen
                    rest).andThen (capped (lastCap? as)) := rfl
              _ =
                  (rest.andThen
                    (capped (some (LineCap.ofName a.value)))).andThen
                      (capped (lastCap? as)) := by rw [hSwap]
              _ =
                  (Change.keep.andThen rest).andThen
                    (capped ((lastCap? as).or _)) := by
                cases lastCap? as <;> rfl
      · have hFirst : uncapped? colors a = change? colors a :=
          if_neg hCap
        rw [hFirst, if_neg hCap, Option.or_none]
        cases change? colors a with
        | none => rfl
        | some c => cases Change.all? (uncapped? colors) as <;> rfl

/- The attributes of a path may be listed in any order. -/
theorem all?_reorder
    (hPerm : as.Perm as')
    (hDistinct : NamesDiffer as)
    (hLast : lastCap? as' = lastCap? as) :
    Change.all? (change? colors) as =
      Change.all? (change? colors) as' := by
  rw [all?_change, all?_change, hLast]
  rw [Change.all?_perm hPerm (hDistinct.imp uncapped?_comm)]

end PathState

omit [Scalar α] in
/-
  Attributes may be listed in any order if those with different
  names change different things.
-/
theorem Change.all?_reorder
    {β : Type}
    {change? : Attribute → Option (Change α β)}
    {Changes : String → Change α β → Prop}
    (hChanges : ∀ {a c}, change? a = some c → Changes a.name c)
    (hCommute :
      ∀ {name name' c c'}, Changes name c → Changes name' c' →
        name ≠ name' → c.Commute c')
    (hPerm : as.Perm as')
    (hDistinct : NamesDiffer as) :
    Change.all? change? as = Change.all? change? as' := by
  refine all?_perm hPerm (hDistinct.imp ?_)
  intro a a' hDiffer c hIs c' hIs'
  exact hCommute (hChanges hIs) (hChanges hIs') hDiffer

------------------------------------------------------------
-- Geometries
------------------------------------------------------------

namespace PathFrame

/- What an attribute of the geometry of a path comes to. -/
def geometryChange?
    (a : Attribute) : Option (Change α (PathFrame α)) :=
  match a.name with
  | "FillRule" =>
      some
        (.set fun f =>
          { f with
            state :=
              { f.state with fillRule := FillRule.ofName a.value } })
  | "Transform" => (Value.matrix? a.value).map .turn
  | _ => some .keep

theorem takeGeometryAttribute_comes
    {e : Element}
    (hPlain : Value.resourceKey? a.value = none)
    (f : PathFrame α) :
    Action.ComesTo env colors f (takeGeometryAttribute env e f a)
      (geometryChange? a) := by
  rcases a with ⟨name, value⟩
  unfold takeGeometryAttribute geometryChange?
  dsimp only at hPlain ⊢
  split
  · exact
      .set fun f : PathFrame α =>
        { f with
          state := { f.state with fillRule := FillRule.ofName value } }
  · exact .turn hPlain
  · repeat' first | contradiction | split
    exact .keep

/- What an attribute with a name may change of a geometry. -/
inductive GeometryChanges : String → Change α (PathFrame α) → Prop
| fillRule
    (rule : FillRule) :
    GeometryChanges "FillRule"
      (.set fun f =>
        { f with state := { f.state with fillRule := rule } })
| turn
    (m : Matrix α) :
    GeometryChanges "Transform" (.turn m)
| other
    (name : String) :
    GeometryChanges name .keep

theorem geometryChange?_changes
    {c : Change α (PathFrame α)}
    (hIs : geometryChange? a = some c) :
    GeometryChanges a.name c := by
  rcases a with ⟨name, value⟩
  unfold geometryChange? at hIs
  dsimp only at hIs ⊢
  split at hIs
  · cases hIs
    exact .fillRule _
  · rcases Option.map_eq_some_iff.mp hIs with ⟨m, -, rfl⟩
    exact .turn m
  · cases hIs
    exact .other _

theorem GeometryChanges.commute
    {name name' : String}
    {c c' : Change α (PathFrame α)}
    (hFirst : GeometryChanges name c)
    (hSecond : GeometryChanges name' c')
    (hDiffer : name ≠ name') :
    c.Commute c' := by
  cases hFirst with
  | other => exact .keep c'
  | _ =>
      cases hSecond <;>
        first
        | rfl
        | exact absurd rfl hDiffer

end PathFrame

namespace GeometryFrame

/- What an attribute of a figure comes to. -/
def figureChange?
    (a : Attribute) : Option (Change α (PathState α)) :=
  match a.name with
  | "IsClosed" =>
      (Value.boolean? a.value).map fun flag =>
        .set fun s => { s with isClosed := flag }
  | "IsFilled" =>
      (Value.boolean? a.value).map fun flag =>
        .set fun s => { s with isFilled := flag }
  | _ => some .keep

theorem takeFigureAttribute_comes
    {e : Element}
    (s : PathState α) :
    Action.ComesTo env colors s
      (Action.ofExcept (takeFigureAttribute e s a))
      (figureChange? a) := by
  rcases a with ⟨name, value⟩
  unfold takeFigureAttribute figureChange?
  dsimp only
  split
  · rw [Action.ofExcept_bind]
    exact
      .read fun flag (s : PathState α) => { s with isClosed := flag }
  · rw [Action.ofExcept_bind]
    exact
      .read fun flag (s : PathState α) => { s with isFilled := flag }
  · repeat' first | contradiction | split
    exact .keep

/- What an attribute with a name may change of a figure. -/
inductive FigureChanges : String → Change α (PathState α) → Prop
| closed
    (flag : Bool) :
    FigureChanges "IsClosed" (.set fun s => { s with isClosed := flag })
| filled
    (flag : Bool) :
    FigureChanges "IsFilled" (.set fun s => { s with isFilled := flag })
| other
    (name : String) :
    FigureChanges name .keep

omit [Scalar α] in
theorem figureChange?_changes
    {c : Change α (PathState α)}
    (hIs : figureChange? a = some c) :
    FigureChanges a.name c := by
  rcases a with ⟨name, value⟩
  unfold figureChange? at hIs
  dsimp only at hIs ⊢
  split at hIs
  · rcases Option.map_eq_some_iff.mp hIs with ⟨flag, -, rfl⟩
    exact .closed flag
  · rcases Option.map_eq_some_iff.mp hIs with ⟨flag, -, rfl⟩
    exact .filled flag
  · cases hIs
    exact .other _

omit [Scalar α] in
theorem FigureChanges.commute
    {name name' : String}
    {c c' : Change α (PathState α)}
    (hFirst : FigureChanges name c)
    (hSecond : FigureChanges name' c')
    (hDiffer : name ≠ name') :
    c.Commute c' := by
  cases hFirst with
  | other => exact .keep c'
  | _ =>
      cases hSecond <;>
        first
        | rfl
        | exact absurd rfl hDiffer

end GeometryFrame

------------------------------------------------------------
-- Glyph runs
------------------------------------------------------------

namespace GlyphRun

/- What an attribute of a glyph run comes to. -/
def change?
    (colors : String → Option (Option (Color α)))
    (a : Attribute) : Option (Change α (GlyphRun α)) :=
  match a.name with
  | "UnicodeString" =>
      some (.set fun run => { run with text? := some a.value })
  | "Indices" =>
      some
        (.set fun run => { run with indices? := shownIndices? a.value })
  | "Fill" =>
      (solid? colors a.value).map fun pattern? =>
        .set fun run => { run with fill? := pattern? }
  | "OpacityMask" =>
      (solid? colors a.value).map fun pattern? =>
        .set fun run => { run with mask? := pattern? }
  | "Clip" => some (.set fun run => { run with clip? := some a.value })
  | "RenderTransform" => (Value.matrix? a.value).map .turn
  | "BidiLevel" =>
      (Value.integer? a.value).map fun level =>
        .set fun run => { run with bidiLevel := level }
  | "IsSideways" =>
      (Value.boolean? a.value).map fun flag =>
        .set fun run => { run with isSideways := flag }
  | "StyleSimulations" =>
      some
        (.set fun run => { run with isItalic := isItalicStyle a.value })
  | "Opacity" =>
      (Value.number? a.value).map fun opacity =>
        .set fun run => { run with opacity := opacity }
  | _ => some .keep

theorem takeAttribute_comes
    {lookup : BrushLookup α}
    {e : Element}
    (hPlain : Value.resourceKey? a.value = none)
    (run : GlyphRun α) :
    Action.ComesTo env colors run
      (takeAttribute env lookup e run a) (change? colors a) := by
  rcases a with ⟨name, value⟩
  unfold takeAttribute change?
  dsimp only at hPlain ⊢
  split
  · exact
      .set fun run : GlyphRun α => { run with text? := some value }
  · exact
      .set fun run : GlyphRun α =>
        { run with indices? := shownIndices? value }
  · exact
      .solid hPlain fun p (run : GlyphRun α) =>
        { run with fill? := p }
  · exact
      .solid hPlain fun p (run : GlyphRun α) =>
        { run with mask? := p }
  · exact
      .geometry hPlain fun data (run : GlyphRun α) =>
        { run with clip? := some data }
  · exact .turn hPlain
  · exact
      .read fun level (run : GlyphRun α) =>
        { run with bidiLevel := level }
  · exact
      .read fun flag (run : GlyphRun α) =>
        { run with isSideways := flag }
  · exact
      .set fun run : GlyphRun α =>
        { run with isItalic := isItalicStyle value }
  · exact
      .read fun opacity (run : GlyphRun α) =>
        { run with opacity := opacity }
  · repeat' first | contradiction | split
    exact .keep

/- What an attribute with a name may change of a glyph run. -/
inductive Changes : String → Change α (GlyphRun α) → Prop
| text
    (text? : Option String) :
    Changes "UnicodeString" (.set fun r => { r with text? := text? })
| indices
    (indices? : Option String) :
    Changes "Indices" (.set fun r => { r with indices? := indices? })
| fill
    (pattern? : Option (Pattern α)) :
    Changes "Fill" (.set fun r => { r with fill? := pattern? })
| mask
    (pattern? : Option (Pattern α)) :
    Changes "OpacityMask" (.set fun r => { r with mask? := pattern? })
| clip
    (clip? : Option String) :
    Changes "Clip" (.set fun r => { r with clip? := clip? })
| turn
    (m : Matrix α) :
    Changes "RenderTransform" (.turn m)
| bidiLevel
    (level : Int) :
    Changes "BidiLevel" (.set fun r => { r with bidiLevel := level })
| sideways
    (flag : Bool) :
    Changes "IsSideways" (.set fun r => { r with isSideways := flag })
| italic
    (flag : Bool) :
    Changes "StyleSimulations"
      (.set fun r => { r with isItalic := flag })
| opacity
    (opacity : α) :
    Changes "Opacity" (.set fun r => { r with opacity := opacity })
| other
    (name : String) :
    Changes name .keep

theorem change?_changes
    {c : Change α (GlyphRun α)}
    (hIs : change? colors a = some c) :
    Changes a.name c := by
  rcases a with ⟨name, value⟩
  unfold change? at hIs
  dsimp only at hIs ⊢
  split at hIs
  · cases hIs
    exact .text _
  · cases hIs
    exact .indices _
  · rcases Option.map_eq_some_iff.mp hIs with ⟨pattern?, -, rfl⟩
    exact .fill pattern?
  · rcases Option.map_eq_some_iff.mp hIs with ⟨pattern?, -, rfl⟩
    exact .mask pattern?
  · cases hIs
    exact .clip _
  · rcases Option.map_eq_some_iff.mp hIs with ⟨m, -, rfl⟩
    exact .turn m
  · rcases Option.map_eq_some_iff.mp hIs with ⟨level, -, rfl⟩
    exact .bidiLevel level
  · rcases Option.map_eq_some_iff.mp hIs with ⟨flag, -, rfl⟩
    exact .sideways flag
  · cases hIs
    exact .italic _
  · rcases Option.map_eq_some_iff.mp hIs with ⟨opacity, -, rfl⟩
    exact .opacity opacity
  · cases hIs
    exact .other _

/- Attributes with different names change different things. -/
theorem Changes.commute
    {name name' : String}
    {c c' : Change α (GlyphRun α)}
    (hFirst : Changes name c)
    (hSecond : Changes name' c')
    (hDiffer : name ≠ name') :
    c.Commute c' := by
  cases hFirst with
  | other => exact .keep c'
  | _ =>
      cases hSecond <;>
        first
        | rfl
        | exact absurd rfl hDiffer

end GlyphRun

------------------------------------------------------------
-- Canvases
------------------------------------------------------------

namespace CanvasStyle

/- What an attribute of a canvas comes to. -/
def change?
    (colors : String → Option (Option (Color α)))
    (a : Attribute) : Option (Change α (CanvasStyle α)) :=
  match a.name with
  | "RenderTransform" => (Value.matrix? a.value).map .turn
  | "Clip" => some (.set fun s => { s with clip? := some a.value })
  | "Opacity" =>
      (Value.number? a.value).map fun opacity =>
        .set fun s => { s with opacity := opacity }
  | "OpacityMask" =>
      (solid? colors a.value).map fun pattern? =>
        .set fun s => { s with mask? := pattern? }
  | _ => some .keep

theorem takeAttribute_comes
    {lookup : BrushLookup α}
    {e : Element}
    (hPlain : Value.resourceKey? a.value = none)
    (s : CanvasStyle α) :
    Action.ComesTo env colors s
      (takeAttribute env lookup e s a) (change? colors a) := by
  rcases a with ⟨name, value⟩
  unfold takeAttribute change?
  dsimp only at hPlain ⊢
  split
  · exact .turn hPlain
  · exact
      .geometry hPlain fun data (s : CanvasStyle α) =>
        { s with clip? := some data }
  · exact
      .read fun opacity (s : CanvasStyle α) =>
        { s with opacity := opacity }
  · exact
      .solid hPlain fun p (s : CanvasStyle α) =>
        { s with mask? := p }
  · repeat' first | contradiction | split
    exact .keep

/- What an attribute with a name may change of a canvas. -/
inductive Changes : String → Change α (CanvasStyle α) → Prop
| turn
    (m : Matrix α) :
    Changes "RenderTransform" (.turn m)
| clip
    (clip? : Option String) :
    Changes "Clip" (.set fun s => { s with clip? := clip? })
| opacity
    (opacity : α) :
    Changes "Opacity" (.set fun s => { s with opacity := opacity })
| mask
    (pattern? : Option (Pattern α)) :
    Changes "OpacityMask" (.set fun s => { s with mask? := pattern? })
| other
    (name : String) :
    Changes name .keep

theorem change?_changes
    {c : Change α (CanvasStyle α)}
    (hIs : change? colors a = some c) :
    Changes a.name c := by
  rcases a with ⟨name, value⟩
  unfold change? at hIs
  dsimp only at hIs ⊢
  split at hIs
  · rcases Option.map_eq_some_iff.mp hIs with ⟨m, -, rfl⟩
    exact .turn m
  · cases hIs
    exact .clip _
  · rcases Option.map_eq_some_iff.mp hIs with ⟨opacity, -, rfl⟩
    exact .opacity opacity
  · rcases Option.map_eq_some_iff.mp hIs with ⟨pattern?, -, rfl⟩
    exact .mask pattern?
  · cases hIs
    exact .other _

theorem Changes.commute
    {name name' : String}
    {c c' : Change α (CanvasStyle α)}
    (hFirst : Changes name c)
    (hSecond : Changes name' c')
    (hDiffer : name ≠ name') :
    c.Commute c' := by
  cases hFirst with
  | other => exact .keep c'
  | _ =>
      cases hSecond <;>
        first
        | rfl
        | exact absurd rfl hDiffer

end CanvasStyle

------------------------------------------------------------
-- Brushes
------------------------------------------------------------

namespace SolidBrush

/- What an attribute of a brush of one color comes to. -/
def change?
    (colors : String → Option (Option (Color α)))
    (a : Attribute) : Option (Change α (SolidBrush α)) :=
  match a.name with
  | "Color" =>
      (colors a.value).map fun color? =>
        .set fun b => { b with color? := color? }
  | "Opacity" =>
      (Value.number? a.value).map fun opacity =>
        .set fun b => { b with opacity := opacity }
  | name => if name == keyAttribute then some .keep else none

theorem takeAttribute_comes
    {e : Element}
    (b : SolidBrush α) :
    Action.ComesTo env colors b (takeAttribute env e b a)
      (change? colors a) := by
  rcases a with ⟨name, value⟩
  unfold takeAttribute change?
  dsimp only
  split
  · exact
      .color fun color? (b : SolidBrush α) =>
        { b with color? := color? }
  · exact
      .read fun opacity (b : SolidBrush α) =>
        { b with opacity := opacity }
  · repeat' first | contradiction | split
    · exact .keep
    · exact .fail _

/- What an attribute with a name may change of such a brush. -/
inductive Changes : String → Change α (SolidBrush α) → Prop
| color
    (color? : Option (Color α)) :
    Changes "Color" (.set fun b => { b with color? := color? })
| opacity
    (opacity : α) :
    Changes "Opacity" (.set fun b => { b with opacity := opacity })
| other
    (name : String) :
    Changes name .keep

theorem change?_changes
    {c : Change α (SolidBrush α)}
    (hIs : change? colors a = some c) :
    Changes a.name c := by
  rcases a with ⟨name, value⟩
  unfold change? at hIs
  dsimp only at hIs ⊢
  split at hIs
  · rcases Option.map_eq_some_iff.mp hIs with ⟨color?, -, rfl⟩
    exact .color color?
  · rcases Option.map_eq_some_iff.mp hIs with ⟨opacity, -, rfl⟩
    exact .opacity opacity
  · split at hIs
    · cases hIs
      exact .other _
    · cases hIs

omit [Scalar α] in
theorem Changes.commute
    {name name' : String}
    {c c' : Change α (SolidBrush α)}
    (hFirst : Changes name c)
    (hSecond : Changes name' c')
    (hDiffer : name ≠ name') :
    c.Commute c' := by
  cases hFirst with
  | other => exact .keep c'
  | _ =>
      cases hSecond <;>
        first
        | rfl
        | exact absurd rfl hDiffer

end SolidBrush

namespace BrushStyle

variable {grammar : BrushGrammar}

/- What an attribute of a brush comes to. -/
def change?
    (grammar : BrushGrammar)
    (a : Attribute) : Option (Change α (BrushStyle α)) :=
  if grammar.passed.contains a.name then some .keep
  else if a.name == grammar.extendName then
    some (.set fun s => { s with extend := grammar.extendOf a.value })
  else if a.name == "Opacity" then
    (Value.number? a.value).map fun opacity =>
      .set fun s => { s with opacity := opacity }
  else if a.name == "Transform" then
    (Value.matrix? a.value).map fun m =>
      .set fun s => { s with matrix := m }
  else none

theorem takeAttribute_comes
    {e : Element}
    (hPlain : Value.resourceKey? a.value = none)
    (s : BrushStyle α) :
    Action.ComesTo env colors s (takeAttribute env grammar e s a)
      (change? grammar a) := by
  rcases a with ⟨name, value⟩
  unfold takeAttribute change?
  dsimp only at hPlain ⊢
  split
  · exact .keep
  · split
    · exact
        .set fun s : BrushStyle α =>
          { s with extend := grammar.extendOf value }
    · split
      · exact
          .read fun opacity (s : BrushStyle α) =>
            { s with opacity := opacity }
      · split
        · exact
            .matrix hPlain fun m (s : BrushStyle α) =>
              { s with matrix := m }
        · exact .fail _

/- What an attribute with a name may change of a brush. -/
inductive Changes
    (grammar : BrushGrammar) :
    String → Change α (BrushStyle α) → Prop
| extend
    (extend : Extend) :
    Changes grammar grammar.extendName
      (.set fun s => { s with extend := extend })
| opacity
    (opacity : α) :
    Changes grammar "Opacity"
      (.set fun s => { s with opacity := opacity })
| transform
    (m : Matrix α) :
    Changes grammar "Transform" (.set fun s => { s with matrix := m })
| other
    (name : String) :
    Changes grammar name .keep

theorem change?_changes
    {c : Change α (BrushStyle α)}
    (hIs : change? grammar a = some c) :
    Changes grammar a.name c := by
  rcases a with ⟨name, value⟩
  unfold change? at hIs
  dsimp only at hIs ⊢
  split at hIs
  · cases hIs
    exact .other _
  · split at hIs
    · rename_i hName
      cases hIs
      rw [beq_iff_eq] at hName
      rw [hName]
      exact .extend _
    · split at hIs
      · rename_i hName
        rw [beq_iff_eq] at hName
        rw [hName]
        rcases Option.map_eq_some_iff.mp hIs with ⟨opacity, -, rfl⟩
        exact .opacity opacity
      · split at hIs
        · rename_i hName
          rw [beq_iff_eq] at hName
          rw [hName]
          rcases Option.map_eq_some_iff.mp hIs with ⟨m, -, rfl⟩
          exact .transform m
        · cases hIs

omit [Scalar α] in
theorem Changes.commute
    {name name' : String}
    {c c' : Change α (BrushStyle α)}
    (hFirst : Changes grammar name c)
    (hSecond : Changes grammar name' c')
    (hDiffer : name ≠ name') :
    c.Commute c' := by
  cases hFirst with
  | other => exact .keep c'
  | _ =>
      cases hSecond <;>
        first
        | rfl
        | exact absurd rfl hDiffer

end BrushStyle

------------------------------------------------------------
-- Matrices
------------------------------------------------------------

/- What an attribute of a matrix comes to. -/
def matrixChange?
    (a : Attribute) : Option (Change α (Matrix α)) :=
  if a.name == "Matrix" then
    (Value.matrix? a.value).map fun m => .set fun _ => m
  else if a.name == keyAttribute then some .keep
  else none

theorem takeMatrixAttribute_comes
    {e : Element}
    (m : Matrix α) :
    Action.ComesTo env colors m
      (Action.ofExcept (takeMatrixAttribute e m a))
      (matrixChange? a) := by
  rcases a with ⟨name, value⟩
  unfold takeMatrixAttribute matrixChange?
  dsimp only
  split
  · intro st _
    unfold Element.read
    cases Value.matrix? (α := α) value with
    | none => exact .fault _ st
    | some m => exact .ok (.set fun _ => m) rfl
  · split
    · exact .keep
    · exact .fail _

/- What an attribute with a name may change of a matrix. -/
inductive MatrixChanges : String → Change α (Matrix α) → Prop
| matrix
    (m : Matrix α) :
    MatrixChanges "Matrix" (.set fun _ => m)
| other
    (name : String) :
    MatrixChanges name .keep

theorem matrixChange?_changes
    {c : Change α (Matrix α)}
    (hIs : matrixChange? a = some c) :
    MatrixChanges a.name c := by
  rcases a with ⟨name, value⟩
  unfold matrixChange? at hIs
  dsimp only at hIs ⊢
  split at hIs
  · rename_i hName
    rw [beq_iff_eq] at hName
    rw [hName]
    rcases Option.map_eq_some_iff.mp hIs with ⟨m, -, rfl⟩
    exact .matrix m
  · split at hIs
    · cases hIs
      exact .other _
    · cases hIs

omit [Scalar α] in
theorem MatrixChanges.commute
    {name name' : String}
    {c c' : Change α (Matrix α)}
    (hFirst : MatrixChanges name c)
    (hSecond : MatrixChanges name' c')
    (hDiffer : name ≠ name') :
    c.Commute c' := by
  cases hFirst with
  | other => exact .keep c'
  | matrix =>
      cases hSecond with
      | other => rfl
      | matrix => exact absurd rfl hDiffer

end FixedPage
