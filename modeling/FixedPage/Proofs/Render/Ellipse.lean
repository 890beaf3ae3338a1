import FixedPage.Proofs.Render.Outcome
import Mathlib.Tactic.Linarith

/-
  This file shows where a radial gradient is painted, computed
  without rounding. The pattern knows circles only. Its matrix
  undoes the transformation of the brush and then a stretch along
  the horizontal through the center, so a point of the page is on
  one of the circles exactly if it is the transformed point of the
  ellipse that has the same part of both radii.

  Main declarations:
    * `RadialLayout`
    * `RadialLayout.OnEllipse`
    * `RadialLayout.Fits`
    * `GradientBrush.pattern?_fits`
    * `radialGradient_fits`
-/

namespace FixedPage

open Markup

variable {α K : Type} [Scalar α] [Field K] {value : α → K}

------------------------------------------------------------
-- Distances
------------------------------------------------------------

omit [Field K] in
/- The square of the distance between two points. -/
def Point.squaredDistance
    (p q : Point α) : α :=
  (p.x - q.x) * (p.x - q.x) + (p.y - q.y) * (p.y - q.y)

/- Its value. -/
theorem Scalar.Exact.value_squaredDistance
    (hExact : Scalar.Exact value)
    (p q : Point α) :
    value (p.squaredDistance q) =
      (value p.x - value q.x) ^ 2 + (value p.y - value q.y) ^ 2 := by
  simp only [Point.squaredDistance, hExact.add, hExact.mul, hExact.sub]
  ring

------------------------------------------------------------
-- Layouts
------------------------------------------------------------

/-
  Where a radial gradient is laid: the point that it starts from,
  the ellipse that it ends in, and the transformation of both.
-/
structure RadialLayout (α : Type) where
  origin : Point α
  center : Point α
  radiusX : α
  radiusY : α
  transform : Matrix α

namespace RadialLayout

/-
  The layout is that of a brush which starts in a state and has
  some elements in it.
-/
structure Describes
    (l : RadialLayout α)
    (env : Environment α)
    (st : RenderState α)
    (e : Element)
    (inner : Elements) : Prop where
  origin : e.readRequired "GradientOrigin" Value.point? = .ok l.origin
  center : e.readRequired "Center" Value.point? = .ok l.center
  radiusX : e.readRequired "RadiusX" Value.number? = .ok l.radiusX
  radiusY : e.readRequired "RadiusY" Value.number? = .ok l.radiusY
  transform :
    ((e.givenTransform env).perform st).1.map inner.gradientTransform =
      .ok l.transform

/- No radius is zero, and the transformation can be undone. -/
structure Regular
    (l : RadialLayout α) : Prop where
  radiusX : l.radiusX ≠ 0
  radiusY : l.radiusY ≠ 0
  transform : l.transform.determinant ≠ 0

/-
  A point is on the ellipse around the center whose half axes are
  `t` times the radii.
-/
def OnEllipse
    (l : RadialLayout α)
    (t : α)
    (p : Point α) : Prop :=
  ∃ u v : α,
    u * u + v * v = 1 ∧
      p =
        ⟨l.center.x + t * l.radiusX * u,
          l.center.y + t * l.radiusY * v⟩

/-
  A pattern is a gradient from a focus to a circle, and its matrix
  takes what has been transformed back to them: the origin to the
  focus, the center to the center, and of all points those of the
  ellipse with some part of the radii to the circle with the same
  part of its radius.
-/
def Fits
    (l : RadialLayout α)
    (pattern : Pattern α) : Prop :=
  ∃ focus center radius stops,
    pattern.kind = .radial focus 0 center radius stops ∧
      pattern.matrix.apply (l.transform.apply l.origin) = focus ∧
      pattern.matrix.apply (l.transform.apply l.center) = center ∧
      ∀ p t,
        l.OnEllipse t p ↔
          (pattern.matrix.apply (l.transform.apply p)).squaredDistance
              center =
            t * radius * (t * radius)

------------------------------------------------------------
-- Circles and ellipses
------------------------------------------------------------

/- The point of a circle that is stretched to a point. -/
def shrunk
    (l : RadialLayout α)
    (p : Point α) : Point α :=
  ⟨l.center.x + (p.x - l.center.x) / (l.radiusX / l.radiusY), p.y⟩

variable {l : RadialLayout α}

/- Stretching undoes shrinking. -/
theorem ellipseMatrix_shrunk
    (hExact : Scalar.Exact value)
    (hRegular : l.Regular)
    (p : Point α) :
    (ellipseMatrix l.center (l.radiusX / l.radiusY)).apply
        (l.shrunk p) = p := by
  have hRatio :=
    hExact.div_ne_zero hRegular.radiusX hRegular.radiusY
  have hValue := hExact.value_ne_zero.mpr hRatio
  unfold ellipseMatrix shrunk
  generalize l.radiusX / l.radiusY = ratio at hRatio hValue ⊢
  apply hExact.point_ext
  · simp only [Matrix.apply, hExact.add, hExact.mul, hExact.sub,
      hExact.div _ _ hRatio, hExact.zero]
    field_simp
    ring
  · simp only [Matrix.apply, hExact.add, hExact.mul, hExact.one,
      hExact.zero]
    ring

/- The center stays where it is. -/
theorem shrunk_center
    (hExact : Scalar.Exact value)
    (hRegular : l.Regular) :
    l.shrunk l.center = l.center := by
  have hRatio :=
    hExact.div_ne_zero hRegular.radiusX hRegular.radiusY
  unfold shrunk
  apply hExact.point_ext
  · simp only [hExact.add, hExact.sub, hExact.div _ _ hRatio]
    ring
  · rfl

/- The value of the distance of a shrunk point from the center. -/
theorem value_shrunk
    (hExact : Scalar.Exact value)
    (hRegular : l.Regular)
    (p : Point α) :
    value ((l.shrunk p).squaredDistance l.center) =
      ((value p.x - value l.center.x) *
          (value l.radiusY / value l.radiusX)) ^ 2 +
        (value p.y - value l.center.y) ^ 2 := by
  have hRatio :=
    hExact.div_ne_zero hRegular.radiusX hRegular.radiusY
  have hX := hExact.value_ne_zero.mpr hRegular.radiusX
  have hY := hExact.value_ne_zero.mpr hRegular.radiusY
  rw [hExact.value_squaredDistance]
  simp only [shrunk, hExact.add, hExact.sub, hExact.div _ _ hRatio,
    hExact.div _ _ hRegular.radiusY]
  field_simp
  ring

/- Shrinking takes an ellipse into a circle. -/
theorem squaredDistance_of_onEllipse
    (hExact : Scalar.Exact value)
    (hRegular : l.Regular)
    {t : α}
    {p : Point α}
    (hOn : l.OnEllipse t p) :
    (l.shrunk p).squaredDistance l.center =
      t * l.radiusY * (t * l.radiusY) := by
  have hX := hExact.value_ne_zero.mpr hRegular.radiusX
  rcases hOn with ⟨u, v, hUnit, rfl⟩
  have hValue := congrArg value hUnit
  simp only [hExact.add, hExact.mul, hExact.one] at hValue
  apply hExact.injective
  rw [value_shrunk hExact hRegular]
  simp only [hExact.add, hExact.mul]
  field_simp
  linear_combination
    (value t * value l.radiusX * value l.radiusY) ^ 2 * hValue

variable [LinearOrder K] [IsStrictOrderedRing K]

/- Only points of an ellipse are taken into its circle. -/
theorem onEllipse_of_squaredDistance
    (hExact : Scalar.Exact value)
    (hRegular : l.Regular)
    {t : α}
    {p : Point α}
    (hOn :
      (l.shrunk p).squaredDistance l.center =
        t * l.radiusY * (t * l.radiusY)) :
    l.OnEllipse t p := by
  have hX := hExact.value_ne_zero.mpr hRegular.radiusX
  have hY := hExact.value_ne_zero.mpr hRegular.radiusY
  have hValue := congrArg value hOn
  rw [value_shrunk hExact hRegular] at hValue
  simp only [hExact.mul] at hValue
  by_cases hZero : t = 0
  · -- The ellipse is a point: a sum of squares that is zero.
    subst hZero
    rw [hExact.zero, zero_mul, zero_mul] at hValue
    have hBoth :=
      (add_eq_zero_iff_of_nonneg (sq_nonneg _) (sq_nonneg _)).mp hValue
    rw [sq_eq_zero_iff, sq_eq_zero_iff, mul_eq_zero, sub_eq_zero,
      sub_eq_zero] at hBoth
    refine ⟨1, 0, ?_, hExact.point_ext ?_ ?_⟩
    · apply hExact.injective
      simp only [hExact.add, hExact.mul, hExact.one, hExact.zero]
      ring
    · rw [hBoth.1.resolve_right (div_ne_zero hY hX)]
      simp only [hExact.add, hExact.mul, hExact.zero]
      ring
    · rw [hBoth.2]
      simp only [hExact.add, hExact.mul, hExact.zero]
      ring
  · have hT := hExact.value_ne_zero.mpr hZero
    have hAxisX := hExact.mul_ne_zero hZero hRegular.radiusX
    have hAxisY := hExact.mul_ne_zero hZero hRegular.radiusY
    refine
      ⟨(p.x - l.center.x) / (t * l.radiusX),
        (p.y - l.center.y) / (t * l.radiusY), ?_,
        hExact.point_ext ?_ ?_⟩
    · apply hExact.injective
      simp only [hExact.add, hExact.mul, hExact.sub, hExact.one,
        hExact.div _ _ hAxisX, hExact.div _ _ hAxisY]
      field_simp at hValue ⊢
      linear_combination hValue
    · simp only [hExact.add, hExact.mul, hExact.sub,
        hExact.div _ _ hAxisX]
      field_simp
      ring
    · simp only [hExact.add, hExact.mul, hExact.sub,
        hExact.div _ _ hAxisY]
      field_simp
      ring

end RadialLayout

------------------------------------------------------------
-- Patterns
------------------------------------------------------------

variable [LinearOrder K] [IsStrictOrderedRing K]

/- The pattern of a gradient between ellipses fits them. -/
theorem GradientBrush.pattern?_fits
    (hExact : Scalar.Exact value)
    {g : GradientBrush α}
    {l : RadialLayout α}
    (hShape :
      g.shape = .radial l.origin l.center l.radiusX l.radiusY)
    (hMatrix : g.matrix = l.transform)
    (hRegular : l.Regular) :
    ∃ pattern, g.pattern? = some pattern ∧ l.Fits pattern := by
  let ellipse := ellipseMatrix l.center (l.radiusX / l.radiusY)
  have hEllipse : ellipse.determinant ≠ 0 := by
    rw [← hExact.value_ne_zero]
    simp only [ellipse, ellipseMatrix, Matrix.determinant, hExact.sub,
      hExact.mul, hExact.one, hExact.zero, mul_one, mul_zero, sub_zero]
    exact
      hExact.value_ne_zero.mpr
        (hExact.div_ne_zero hRegular.radiusX hRegular.radiusY)
  have hProduct : (ellipse.mul l.transform).determinant ≠ 0 := by
    rw [Matrix.determinant_mul hExact]
    exact hExact.mul_ne_zero hEllipse hRegular.transform
  rcases Matrix.inverse?_eq_some hExact hProduct with
    ⟨inverse, hInverse, hUndoes⟩
  have hBack :
      ∀ p, inverse.apply (l.transform.apply p) = l.shrunk p := by
    intro p
    calc
      inverse.apply (l.transform.apply p)
          = inverse.apply
              (l.transform.apply (ellipse.apply (l.shrunk p))) := by
            rw [RadialLayout.ellipseMatrix_shrunk hExact hRegular]
      _ = l.shrunk p := by
            rw [← Matrix.apply_mul hExact ellipse, hUndoes]
  have hPattern :
      g.pattern? =
        some
          ⟨.radial (l.shrunk l.origin) 0 l.center l.radiusY
              g.paintedStops, g.spread, inverse⟩ := by
    unfold pattern?
    rw [hShape]
    dsimp only
    unfold radialPattern?
    rw [hExact.beq_zero hRegular.radiusX,
      hExact.beq_zero hRegular.radiusY, if_neg (by simp), hMatrix]
    dsimp only
    rw [hInverse]
    rfl
  refine
    ⟨_, hPattern, _, _, _, _, rfl, hBack _,
      (hBack _).trans (RadialLayout.shrunk_center hExact hRegular),
      fun p t => ?_⟩
  rw [hBack p]
  constructor
  · exact RadialLayout.squaredDistance_of_onEllipse hExact hRegular
  · exact RadialLayout.onEllipse_of_squaredDistance hExact hRegular

/- The course of a gradient that has been read. -/
theorem RadialLayout.Describes.shape
    {l : RadialLayout α}
    {env : Environment α}
    {st : RenderState α}
    {e : Element}
    {inner : Elements}
    (hLayout : l.Describes env st e inner)
    {shape : GradientShape α}
    (hShape : GradientShape.readRadial e = .ok shape) :
    shape = .radial l.origin l.center l.radiusX l.radiusY := by
  unfold GradientShape.readRadial at hShape
  rw [hLayout.origin, hLayout.center, hLayout.radiusX,
    hLayout.radiusY] at hShape
  exact (Except.ok.inj hShape).symm

/-
  A radial gradient with a regular layout has a pattern that fits
  the layout: as a brush that has been read, and as what its
  elements come out as.
-/
theorem radialGradient_fits
    (hExact : Scalar.Exact value)
    {l : RadialLayout α}
    (hRegular : l.Regular) :
    (∀ g : GradientBrush α,
      g.shape = .radial l.origin l.center l.radiusX l.radiusY →
        g.matrix = l.transform →
          ∃ pattern, g.pattern? = some pattern ∧ l.Fits pattern) ∧
      ∀ (env : Environment α) (attributes : List Attribute)
        (inner : Elements) (pattern? : Option (Pattern α))
        (st st' : RenderState α),
        l.Describes env st ⟨.nowhere, "RadialGradientBrush", attributes⟩
            inner →
          BrushOutcome env
              (.element "RadialGradientBrush" attributes inner .none)
              st pattern? st' →
            ∃ pattern, pattern? = some pattern ∧ l.Fits pattern := by
  constructor
  · intro g hShape hMatrix
    exact g.pattern?_fits hExact hShape hMatrix hRegular
  · intro env attributes inner pattern? st st' hLayout hOutcome
    rcases hOutcome.radial with
      ⟨g, given, hGiven, hMatrix, hShape, rfl⟩
    refine
      g.pattern?_fits hExact (hLayout.shape hShape) ?_ hRegular
    have hTransform := hLayout.transform
    rw [hGiven] at hTransform
    exact hMatrix.trans (Except.ok.inj hTransform)

------------------------------------------------------------
-- An ellipse
------------------------------------------------------------

namespace Ellipse

/- Where a gradient is laid. -/
def layout : RadialLayout ℚ where
  origin := ⟨1, 2⟩
  center := ⟨3, 4⟩
  radiusX := 2
  radiusY := 5
  transform := ⟨0, 1, -1, 2, 8, 9⟩

/- The attributes that say so, but for the transformation. -/
def attributes : List Attribute :=
  [⟨"GradientOrigin", "1,2"⟩, ⟨"Center", "3,4"⟩, ⟨"RadiusX", "2"⟩,
    ⟨"RadiusY", "5"⟩, ⟨"Transform", "2,0,0,3,5,7"⟩]

/- The transformation inside of the brush. -/
def inner : Elements :=
  .element "RadialGradientBrush.Transform" []
    (.element "MatrixTransform" [⟨"Matrix", "0,1,-1,2,8,9"⟩] .none
      .none)
    .none

/- The tags of the brush. -/
def items : List (Location × Event) :=
  (Elements.element "RadialGradientBrush" attributes inner
    .none).tags.map (Prod.mk .nowhere)

/- The brush of a property when the tags are fed to it. -/
def fed : Fed ℚ :=
  Stack.feedAll .empty (startElement .empty (pageBrush .empty))
    ⟨[⟨.brush none, 1⟩], 1⟩ (.start .empty .empty .empty) items

end Ellipse

/- A brush that shears its ellipse gives a pattern that fits it. -/
theorem Ellipse.fitted :
    ∃ pattern,
      fed.stack = ⟨[⟨.brush (some pattern), 1⟩], 1⟩ ∧
        layout.Fits pattern := by
  have hRegular : layout.Regular := by
    constructor <;> decide +kernel
  have hLayout :
      layout.Describes .empty (.start .empty .empty .empty)
        ⟨.nowhere, "RadialGradientBrush", attributes⟩ inner := by
    constructor <;> decide +kernel
  have hResult : fed.result = .ok none := by
    decide +kernel
  have hTags :
      tagsOf items =
        (Elements.element "RadialGradientBrush" attributes inner
          .none).tags := by
    decide +kernel
  rcases
    BrushOutcome.of_feedAll hTags (Nat.le_refl 1)
      (Fed.eq_of_result hResult) with
    ⟨pattern?, hStack, hOutcome⟩
  rcases
    (radialGradient_fits ExactNegation.exact hRegular).2 .empty
      attributes inner pattern? _ _ hLayout hOutcome with
    ⟨pattern, rfl, hFits⟩
  exact ⟨pattern, hStack, hFits⟩

end FixedPage
