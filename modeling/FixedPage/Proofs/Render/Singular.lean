import FixedPage.Proofs.Render.Ellipse

/-
  This file says what becomes of a brush whose mapping to the page
  is singular, computed without rounding. A gradient and an image
  have no pattern then, whichever factor of the mapping flattens
  the plane. A visual brush always has one: the group of its
  content, which is laid over the page as it has been drawn.

  Main declarations:
    * `RadialLayout.mapping`
    * `BrushLayout.mapping`
    * `BrushMapping`
    * `BrushOutcome.singular`
-/

namespace FixedPage

open Markup

variable {α K : Type} [Scalar α] [Field K] {value : α → K}

------------------------------------------------------------
-- Singular matrices
------------------------------------------------------------

namespace Matrix

/- Scales the axes, then moves every point. -/
def scalingTo
    (sx sy tx ty : α) : Matrix α :=
  ⟨sx, 0, 0, sy, tx, ty⟩

/-
  Before another transformation it flattens the plane exactly if
  one of the factors does.
-/
theorem scalingTo_singular_iff
    (hExact : Scalar.Exact value)
    (sx sy tx ty : α)
    (m : Matrix α) :
    ((scalingTo sx sy tx ty).mul m).determinant = 0 ↔
      value sx * value sy * value m.determinant = 0 := by
  have hScale :
      value (scalingTo sx sy tx ty).determinant =
        value sx * value sy := by
    simp only [scalingTo, determinant, hExact.sub, hExact.mul,
      hExact.zero]
    ring
  rw [determinant_mul hExact, ← hExact.injective.eq_iff, hExact.mul,
    hScale, hExact.zero]

/- A transformation that flattens the plane cannot be undone. -/
theorem inverse?_eq_none
    (hExact : Scalar.Exact value)
    {m : Matrix α}
    (hSingular : m.determinant = 0) :
    m.inverse? = none := by
  unfold inverse?
  dsimp only
  rw [hSingular, (hExact.beq 0 0).mpr rfl, Bool.true_or, if_pos rfl]

end Matrix

/- A tile whose mapping is singular has no matrix. -/
theorem tileMatrix?_eq_none
    (hExact : Scalar.Exact value)
    {viewport source : Rectangle α}
    {transform : Matrix α}
    (hSingular :
      value viewport.width * value viewport.height *
          value transform.determinant = 0) :
    tileMatrix? viewport source transform = none := by
  unfold tileMatrix?
  split
  · rfl
  · rename_i hSource
    rw [Bool.or_eq_true, not_or, hExact.beq, hExact.beq] at hSource
    rcases hSource with ⟨hWidth, hHeight⟩
    refine
      Matrix.inverse?_eq_none hExact
        ((Matrix.scalingTo_singular_iff hExact _ _ _ _ _).mpr ?_)
    rw [hExact.div _ _ hWidth, hExact.div _ _ hHeight]
    have hWidth := hExact.value_ne_zero.mpr hWidth
    have hHeight := hExact.value_ne_zero.mpr hHeight
    field_simp
    rw [mul_zero]
    exact hSingular

------------------------------------------------------------
-- Mappings
------------------------------------------------------------

/- Takes the circle of radius one to the transformed ellipse. -/
def RadialLayout.mapping
    (l : RadialLayout α) : Matrix α :=
  (Matrix.scalingTo l.radiusX l.radiusY l.center.x l.center.y).mul
    l.transform

/- Takes the square of size one to the transformed viewport. -/
def BrushLayout.mapping
    (l : BrushLayout α) : Matrix α :=
  (Matrix.scalingTo l.viewport.width l.viewport.height l.viewport.x
    l.viewport.y).mul l.transform

/-
  The mapping of a brush to the page as its markup describes it:
  the transformation alone, after an ellipse or after a viewport.
-/
inductive BrushMapping
    (env : Environment α)
    (st : RenderState α)
    (attributes : List Attribute)
    (inner : Elements) : String → Matrix α → Prop
| linear
    {m : Matrix α}
    (hTransform :
      ((Element.givenTransform env
            ⟨.nowhere, "LinearGradientBrush", attributes⟩).perform
          st).1.map inner.gradientTransform = .ok m) :
    BrushMapping env st attributes inner "LinearGradientBrush" m
| radial
    {l : RadialLayout α}
    (hLayout :
      l.Describes env st ⟨.nowhere, "RadialGradientBrush", attributes⟩
        inner) :
    BrushMapping env st attributes inner "RadialGradientBrush"
      l.mapping
| image
    {l : BrushLayout α}
    (hLayout :
      l.Describes env st ⟨.nowhere, "ImageBrush", attributes⟩ inner) :
    BrushMapping env st attributes inner "ImageBrush" l.mapping
| visual
    {l : BrushLayout α}
    (hLayout :
      l.Describes env st ⟨.nowhere, "VisualBrush", attributes⟩ inner) :
    BrushMapping env st attributes inner "VisualBrush" l.mapping

------------------------------------------------------------
-- Patterns of brushes
------------------------------------------------------------

/- The course of a gradient that has been read is along a line. -/
theorem GradientShape.readLinear_linear
    {e : Element}
    {shape : GradientShape α}
    (hRead : readLinear e = .ok shape) :
    ∃ start target, shape = .linear start target := by
  unfold readLinear at hRead
  rcases Except.ok_of_bind hRead with ⟨_, _, hRead⟩
  rcases Except.ok_of_bind hRead with ⟨_, _, hRead⟩
  rcases Except.ok_of_bind hRead with ⟨start, _, hRead⟩
  rcases Except.ok_of_bind hRead with ⟨target, _, hRead⟩
  exact ⟨start, target, (Except.ok.inj hRead).symm⟩

/- A gradient along a line has no pattern under such a mapping. -/
theorem GradientBrush.linear_singular
    (hExact : Scalar.Exact value)
    {g : GradientBrush α}
    {start target : Point α}
    (hShape : g.shape = .linear start target)
    (hSingular : g.matrix.determinant = 0) :
    g.pattern? = none := by
  unfold pattern?
  rw [hShape]
  dsimp only
  rw [linearPattern?, Matrix.inverse?_eq_none hExact hSingular]
  rfl

/- A gradient between ellipses has none either. -/
theorem GradientBrush.radial_singular
    (hExact : Scalar.Exact value)
    {g : GradientBrush α}
    {l : RadialLayout α}
    (hShape :
      g.shape = .radial l.origin l.center l.radiusX l.radiusY)
    (hMatrix : g.matrix = l.transform)
    (hSingular : l.mapping.determinant = 0) :
    g.pattern? = none := by
  have hFactors :=
    (Matrix.scalingTo_singular_iff hExact _ _ _ _ _).mp hSingular
  unfold pattern?
  rw [hShape]
  dsimp only
  unfold radialPattern?
  split
  · rfl
  · rename_i hRadii
    rw [Bool.or_eq_true, not_or, hExact.beq, hExact.beq] at hRadii
    have hX := hExact.value_ne_zero.mpr hRadii.1
    have hY := hExact.value_ne_zero.mpr hRadii.2
    have hTransform :=
      (mul_eq_zero.mp hFactors).resolve_left (mul_ne_zero hX hY)
    have hProduct :
        ((ellipseMatrix l.center
          (l.radiusX / l.radiusY)).mul g.matrix).determinant = 0 := by
      refine (Matrix.scalingTo_singular_iff hExact _ _ _ _ _).mpr ?_
      rw [hMatrix, hTransform, mul_zero]
    dsimp only
    rw [Matrix.inverse?_eq_none hExact hProduct]
    rfl

/- An image brush has none, whether or not its image is loaded. -/
theorem ImageBrush.resolve_singular
    (hExact : Scalar.Exact value)
    {i : ImageBrush α}
    {l : BrushLayout α}
    (hViewport : i.viewport = l.viewport)
    (hMatrix : i.matrix = l.transform)
    (hSingular : l.mapping.determinant = 0)
    (env : Environment α)
    (st : RenderState α) :
    (i.resolve env st).1 = none := by
  have hFactors :=
    (Matrix.scalingTo_singular_iff hExact _ _ _ _ _).mp hSingular
  unfold resolve
  dsimp only
  split
  · rfl
  · rename_i image _
    have hPattern : i.pattern? image = none := by
      unfold pattern?
      dsimp only
      rw [hViewport, hMatrix, tileMatrix?_eq_none hExact hFactors]
      rfl
    rw [hPattern]

/- A visual brush is left as it has been drawn. -/
theorem VisualBrush.place_singular
    (hExact : Scalar.Exact value)
    {v : VisualBrush α}
    {l : BrushLayout α}
    (hViewport : v.viewport = l.viewport)
    (hTransform : v.transform = l.transform)
    (hSingular : l.mapping.determinant = 0)
    (group : Pattern α) :
    v.place group = { group with extend := v.extend } := by
  have hFactors :=
    (Matrix.scalingTo_singular_iff hExact _ _ _ _ _).mp hSingular
  unfold place
  dsimp only
  rw [hViewport, hTransform, tileMatrix?_eq_none hExact hFactors]

------------------------------------------------------------
-- Outcomes
------------------------------------------------------------

/-
  Under a singular mapping every brush but a visual one comes out
  as nothing, written or looked up. A visual brush comes out as the
  group of its content on the page, without its mapping.
-/
theorem BrushOutcome.singular
    (hExact : Scalar.Exact value)
    {env : Environment α}
    {name : String}
    {attributes : List Attribute}
    {inner : Elements}
    {m : Matrix α}
    {pattern? : Option (Pattern α)}
    {st st' : RenderState α}
    (hMapping : BrushMapping env st attributes inner name m)
    (hSingular : m.determinant = 0)
    (hOutcome :
      BrushOutcome env (.element name attributes inner .none) st
        pattern? st') :
    (pattern? = none ↔ name ≠ "VisualBrush") ∧
      (name = "VisualBrush" →
        ∃ extend,
          pattern? =
            some
              ⟨.layer (.group st.surface.nextGroup), extend,
                st.surface.ctm⟩) := by
  cases hMapping with
  | linear hTransform =>
      rcases hOutcome.linear with
        ⟨g, given, hGiven, hMatrix, hShape, rfl⟩
      rw [hGiven] at hTransform
      rw [← Except.ok.inj hTransform, ← hMatrix] at hSingular
      rcases GradientShape.readLinear_linear hShape with
        ⟨start, target, hCourse⟩
      exact
        ⟨iff_of_true (g.linear_singular hExact hCourse hSingular)
          (by decide), fun hVisual => absurd hVisual (by decide)⟩
  | radial hLayout =>
      rcases hOutcome.radial with
        ⟨g, given, hGiven, hMatrix, hShape, rfl⟩
      have hTransform := hLayout.transform
      rw [hGiven] at hTransform
      have hSame := hMatrix.trans (Except.ok.inj hTransform)
      exact
        ⟨iff_of_true
          (g.radial_singular hExact (hLayout.shape hShape) hSame
            hSingular)
          (by decide), fun hVisual => absurd hVisual (by decide)⟩
  | image hLayout =>
      rcases hOutcome.image hLayout with
        ⟨i, full, hViewport, hMatrix, rfl⟩
      exact
        ⟨iff_of_true
          (i.resolve_singular hExact hViewport hMatrix hSingular env
            full)
          (by decide), fun hVisual => absurd hVisual (by decide)⟩
  | visual hLayout =>
      rcases hOutcome.visual hLayout with
        ⟨v, hViewport, hTransform, rfl⟩
      rw [v.place_singular hExact hViewport hTransform hSingular]
      exact
        ⟨iff_of_false nofun fun hOther => hOther rfl,
          fun _ => ⟨v.extend, rfl⟩⟩

------------------------------------------------------------
-- Flattened brushes
------------------------------------------------------------

namespace FlatBrush

/- Attributes of tiles that are flattened to a line. -/
def attributes : List Attribute :=
  [⟨"Viewport", "0,0,10,10"⟩, ⟨"Viewbox", "0,0,10,10"⟩,
    ⟨"Transform", "1,0,0,0,0,0"⟩]

/- Where such a tile is laid. -/
def layout : BrushLayout ℚ where
  viewport := ⟨0, 0, 10, 10⟩
  viewbox := ⟨0, 0, 10, 10⟩
  given := ⟨1, 0, 0, 0, 0, 0⟩
  transform := ⟨1, 0, 0, 0, 0, 0⟩

/- A package in which every image is one pixel. -/
def env : Environment ℚ :=
  { Environment.empty with
    loadImage := fun _ => .ok ⟨1, 1, [255, 0, 0, 255], 96, 96⟩ }

/- The tags of a brush that has no elements in it. -/
def items
    (name : String)
    (attributes : List Attribute) : List (Location × Event) :=
  (Elements.element name attributes .none .none).tags.map
    (Prod.mk .nowhere)

/- The brush of a property when its tags are fed to it. -/
def fed
    (name : String)
    (attributes : List Attribute) : Fed ℚ :=
  Stack.feedAll env (startElement env (pageBrush env))
    ⟨[⟨.brush none, 1⟩], 1⟩ (.start .empty .empty .empty)
    (items name attributes)

end FlatBrush

/-
  Of an image brush and a visual brush that are flattened alike,
  only the visual one has a pattern.
-/
theorem FlatBrush.singular_visual :
    (fed "ImageBrush" (⟨"ImageSource", "a.png"⟩ :: attributes)).stack =
        ⟨[⟨.brush none, 1⟩], 1⟩ ∧
      ∃ extend,
        (fed "VisualBrush" attributes).stack =
          ⟨[⟨.brush (some ⟨.layer (.group 0), extend, .identity⟩), 1⟩],
            1⟩ := by
  have hImageLayout :
      layout.Describes env (.start .empty .empty .empty)
        ⟨.nowhere, "ImageBrush", ⟨"ImageSource", "a.png"⟩ :: attributes⟩
        .none := by
    constructor <;> decide +kernel
  have hVisualLayout :
      layout.Describes env (.start .empty .empty .empty)
        ⟨.nowhere, "VisualBrush", attributes⟩ .none := by
    constructor <;> decide +kernel
  have hSingular : layout.mapping.determinant = 0 := by
    decide +kernel
  have hTags :
      ∀ name attributes,
        tagsOf (items name attributes) =
          (Elements.element name attributes .none .none).tags :=
    fun _ _ => rfl
  have hImage :
      (fed "ImageBrush"
          (⟨"ImageSource", "a.png"⟩ :: attributes)).result =
        .ok none := by
    decide +kernel
  have hVisual :
      (fed "VisualBrush" attributes).result = .ok none := by
    decide +kernel
  constructor
  · rcases
      BrushOutcome.of_feedAll (hTags _ _) (Nat.le_refl 1)
        (Fed.eq_of_result hImage) with
      ⟨pattern?, hStack, hOutcome⟩
    obtain rfl : pattern? = none :=
      (BrushOutcome.singular ExactNegation.exact (.image hImageLayout)
        hSingular hOutcome).1.mpr (by decide)
    exact hStack
  · rcases
      BrushOutcome.of_feedAll (hTags _ _) (Nat.le_refl 1)
        (Fed.eq_of_result hVisual) with
      ⟨pattern?, hStack, hOutcome⟩
    rcases
      (BrushOutcome.singular ExactNegation.exact (.visual hVisualLayout)
        hSingular hOutcome).2 rfl with
      ⟨extend, rfl⟩
    exact ⟨extend, hStack⟩

end FixedPage
