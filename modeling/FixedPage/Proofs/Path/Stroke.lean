import FixedPage.Proofs.Path.Extents
import Mathlib.Analysis.SpecialFunctions.Trigonometric.Inverse

/-
  This file compares what the stroke of a path covers with the
  box that a path with a stroke and a mask is clipped to, its
  extents grown by half the width of the stroke.

  The box holds every point within half the width of the path.
  The tip of a mitered corner is further away from its vertex,
  the more so the more acute the corner is, up to the limit of
  the miter. So the box holds every stroke of a style only if the
  style has no miters or a limit that allows none.

  Main declarations:
    * `Joint`
    * `Subpath.Meets`
    * `PathBuilder.Near`
    * `PathBuilder.Tip`
    * `PathBuilder.Strokes`
    * `PathState.stroke_clipped`
-/

namespace FixedPage

variable {α : Type}

------------------------------------------------------------
-- Directions
------------------------------------------------------------

namespace Point

/- How far two points are apart. -/
noncomputable def distance
    (p q : Point ℝ) : ℝ :=
  √((q.x - p.x) ^ 2 + (q.y - p.y) ^ 2)

/- The direction in which one sees a point from another one. -/
noncomputable def direction
    (p q : Point ℝ) : Point ℝ :=
  ⟨(q.x - p.x) / p.distance q, (q.y - p.y) / p.distance q⟩

/-
  `p.Heads points d` says that `d` is the direction from `p` of
  the first of some points that is not `p` itself.
-/
inductive Heads
    (p : Point ℝ) : List (Point ℝ) → Point ℝ → Prop
| off
    {q : Point ℝ}
    {rest : List (Point ℝ)}
    (hOff : q ≠ p) :
    Heads p (q :: rest) (p.direction q)
| on
    {rest : List (Point ℝ)}
    {d : Point ℝ}
    (hRest : Heads p rest d) :
    Heads p (p :: rest) d

/- A direction is no longer than one. -/
theorem direction_le_one
    (p q : Point ℝ) :
    (p.direction q).x ^ 2 + (p.direction q).y ^ 2 ≤ 1 := by
  have hSquare :
      p.distance q ^ 2 = (q.x - p.x) ^ 2 + (q.y - p.y) ^ 2 :=
    Real.sq_sqrt (by positivity)
  simp only [direction, div_pow]
  rw [← add_div, ← hSquare]
  exact div_self_le_one _

/- Coordinates differ by no more than the points are apart. -/
theorem abs_sub_le_distance
    (p q : Point ℝ) :
    |q.x - p.x| ≤ p.distance q ∧ |q.y - p.y| ≤ p.distance q :=
  ⟨Real.abs_le_sqrt (le_add_of_nonneg_right (sq_nonneg _)),
    Real.abs_le_sqrt (le_add_of_nonneg_left (sq_nonneg _))⟩

end Point

------------------------------------------------------------
-- Corners
------------------------------------------------------------

/-
  A corner of a path: its vertex, and the directions in which the
  path leads from there, back to where it comes from and ahead.
-/
structure Joint where
  vertex : Point ℝ
  back : Point ℝ
  ahead : Point ℝ

namespace Joint

/- The interior angle of a corner. -/
noncomputable def angle
    (j : Joint) : ℝ :=
  Real.arccos (j.back.x * j.ahead.x + j.back.y * j.ahead.y)

/- The outward direction of the bisector of a corner. -/
noncomputable def outward
    (j : Joint) : Point ℝ :=
  Point.direction
    ⟨j.back.x + j.ahead.x, j.back.y + j.ahead.y⟩ ⟨0, 0⟩

/- How far the tip of a miter is from the vertex. -/
noncomputable def reach
    (width : ℝ)
    (j : Joint) : ℝ :=
  width / 2 / Real.sin (j.angle / 2)

/- The tip of a miter. -/
noncomputable def tip
    (width : ℝ)
    (j : Joint) : Point ℝ :=
  ⟨j.vertex.x + j.reach width * j.outward.x,
    j.vertex.y + j.reach width * j.outward.y⟩

/- The miter of a corner is within a limit. -/
def Within
    (limit : ℝ)
    (j : Joint) : Prop :=
  0 < Real.sin (j.angle / 2) ∧ 1 / Real.sin (j.angle / 2) ≤ limit

/- A miter within a limit is no longer than the limit allows. -/
theorem Within.distance_tip
    {j : Joint}
    {limit width : ℝ}
    (hWithin : j.Within limit)
    (hWidth : 0 ≤ width) :
    j.vertex.distance (j.tip width) ≤ width / 2 * limit := by
  rcases hWithin with ⟨hSharp, hLimit⟩
  have hFrom : 0 ≤ j.reach width := by
    unfold reach
    positivity
  have hReach : j.reach width ≤ width / 2 * limit := by
    rw [reach, div_eq_mul_one_div]
    gcongr
  have hUnit := Point.direction_le_one
    ⟨j.back.x + j.ahead.x, j.back.y + j.ahead.y⟩ ⟨0, 0⟩
  refine Real.sqrt_le_iff.mpr ⟨hFrom.trans hReach, ?_⟩
  calc
    (j.vertex.x + j.reach width * j.outward.x - j.vertex.x) ^ 2
          + (j.vertex.y + j.reach width * j.outward.y
            - j.vertex.y) ^ 2
        = j.reach width ^ 2
            * (j.outward.x ^ 2 + j.outward.y ^ 2) := by ring
    _ ≤ j.reach width ^ 2 * 1 := by gcongr; exact hUnit
    _ = j.reach width ^ 2 := mul_one _
    _ ≤ (width / 2 * limit) ^ 2 := by gcongr

/- The sine of half the angle from the cosine of the angle. -/
theorem sin_half_angle
    {j : Joint}
    {s : ℝ}
    (hFrom : 0 ≤ s)
    (hTo : s ≤ 1)
    (hCos :
      j.back.x * j.ahead.x + j.back.y * j.ahead.y = 1 - 2 * s ^ 2) :
    Real.sin (j.angle / 2) = s := by
  have hSquare : s ^ 2 ≤ 1 := pow_le_one₀ hFrom hTo
  have hAngle : Real.cos j.angle = 1 - 2 * s ^ 2 := by
    rw [angle, hCos]
    exact Real.cos_arccos (by linarith) (by linarith [sq_nonneg s])
  have hLow : 0 ≤ j.angle := Real.arccos_nonneg _
  have hHigh : j.angle ≤ Real.pi := Real.arccos_le_pi _
  calc
    Real.sin (j.angle / 2) = √((1 - Real.cos j.angle) / 2) :=
      Real.sin_half_eq_sqrt hLow (by linarith [Real.pi_pos])
    _ = √(s ^ 2) := by rw [hAngle]; congr 1; ring
    _ = s := Real.sqrt_sq hFrom

end Joint

/- The first of the points that a stretch is given by. -/
def Stretch.start : Stretch α → Point α
| line p _ => p
| curve p₀ _ _ _ => p₀

namespace Subpath

/-
  The stretches in the order in which they meet. A closed subpath
  goes on where it has begun.
-/
def course
    (s : Subpath α) : List (Stretch α) :=
  if s.isClosed then s.stretches ++ s.stretches else s.stretches

/-
  A subpath has a corner where one of its stretches starts. What
  stays at the vertex does not count for the directions.
-/
def Meets
    (value : α → ℝ)
    (s : Subpath α)
    (j : Joint) : Prop :=
  ∃ before stretch after,
    s.course = before ++ stretch :: after ∧
      j.vertex = stretch.start.valued value ∧
        j.vertex.Heads
          ((before.flatMap Stretch.points).reverse.map
            (Point.valued value)) j.back ∧
        j.vertex.Heads
          (((stretch :: after).flatMap Stretch.points).map
            (Point.valued value)) j.ahead

/- The vertices of a subpath are among its points. -/
theorem Meets.vertex_mem
    {value : α → ℝ}
    {s : Subpath α}
    {j : Joint}
    (hMeets : s.Meets value j)
    {points : List (Point α)}
    (hOn : s.On points) :
    ∃ p ∈ points, j.vertex = p.valued value := by
  rcases hMeets with ⟨before, stretch, after, hCourse, hVertex, -⟩
  have hMem : stretch ∈ s.course := by
    rw [hCourse]
    simp
  have hStretch : stretch ∈ s.stretches := by
    unfold course at hMem
    split at hMem
    · exact (List.mem_append.mp hMem).elim id id
    · exact hMem
  refine ⟨stretch.start, hOn.stretches stretch hStretch ?_, hVertex⟩
  cases stretch <;> exact List.mem_cons_self ..

end Subpath

------------------------------------------------------------
-- Strokes
------------------------------------------------------------

namespace PathBuilder

variable (value : α → ℝ) (style : StrokeStyle α) (b : PathBuilder α)

/- A point within half the width of the stroke of a path. -/
def Near
    (p : Point ℝ) : Prop :=
  ∃ subpath ∈ b.subpaths, ∃ stretch ∈ subpath.stretches, ∃ q,
    stretch.Passes value q ∧ q.distance p ≤ value style.width / 2

/- The tip of a corner of the path whose miter is drawn. -/
def Tip
    (p : Point ℝ) : Prop :=
  style.join = .miter ∧ 0 ≤ value style.width ∧
    ∃ subpath ∈ b.subpaths, ∃ j,
      subpath.Meets value j ∧ j.Within (value style.miterLimit) ∧
        p = j.tip (value style.width)

/- What the stroke of a path covers. -/
def Strokes
    (p : Point ℝ) : Prop :=
  b.Near value style p ∨ b.Tip value style p

end PathBuilder

------------------------------------------------------------
-- Inflated boxes
------------------------------------------------------------

section

variable [Scalar α] {value : α → ℝ}

/- Half of a scalar. -/
theorem Scalar.ExactOrder.value_half
    (hExact : Scalar.ExactOrder value)
    (x : α) :
    value (x / Nat.cast 2) = value x / 2 := by
  have hTwo : value (Nat.cast 2) = 2 := hExact.natCast 2
  have hNonzero : (Nat.cast 2 : α) ≠ 0 := by
    rw [← hExact.value_ne_zero, hTwo]
    exact two_ne_zero
  rw [hExact.div _ _ hNonzero, hTwo]

namespace Rectangle

/- Where a box begins that has grown on every side. -/
theorem low_inflated
    (hExact : Scalar.ExactOrder value)
    (r : Rectangle α)
    (margin : α) :
    (r.inflated margin).low value =
      ⟨(r.low value).x - value margin,
        (r.low value).y - value margin⟩ := by
  simp only [low, inflated, Point.valued, hExact.sub]

/- Where a box ends that has grown on every side. -/
theorem high_inflated
    (hExact : Scalar.ExactOrder value)
    (r : Rectangle α)
    (margin : α) :
    (r.inflated margin).high value =
      ⟨(r.high value).x + value margin,
        (r.high value).y + value margin⟩ := by
  have hTwo : value (Nat.cast 2) = 2 := hExact.natCast 2
  simp only [high, inflated, Point.valued, hExact.sub, hExact.add,
    hExact.mul, hTwo, Point.mk.injEq]
  constructor <;> ring

/- A box that has grown holds what is not further away. -/
theorem Holds.inflated
    (hExact : Scalar.ExactOrder value)
    {r : Rectangle α}
    {p q : Point ℝ}
    (hHolds : r.Holds value q)
    {margin : α}
    (hNear : q.distance p ≤ value margin) :
    (r.inflated margin).Holds value p := by
  rcases q.abs_sub_le_distance p with ⟨hX, hY⟩
  rw [abs_le] at hX hY
  rcases hHolds with ⟨⟨hLeft, hBottom⟩, hRight, hTop⟩
  rw [Holds, low_inflated hExact, high_inflated hExact]
  refine ⟨⟨?_, ?_⟩, ?_, ?_⟩ <;> dsimp only <;> linarith

end Rectangle

namespace PathBuilder

variable {style : StrokeStyle α} {b : PathBuilder α} {p : Point ℝ}
variable {extents : Rectangle α}

/- Half the width is margin enough for the points near a path. -/
theorem Near.held
    (hExact : Scalar.ExactOrder value)
    (hNear : b.Near value style p)
    (hFits : extents.Fits value b.points) :
    (extents.inflated (style.width / Nat.cast 2)).Holds value p := by
  rcases hNear with
    ⟨subpath, hSubpath, stretch, hStretch, q, hPasses, hNear⟩
  have hHolds : extents.Holds value q :=
    held_of_border hFits hSubpath (List.mem_append_left _ hStretch)
      hPasses
  rw [← hExact.value_half] at hNear
  exact hHolds.inflated hExact hNear

/-
  A tip is in a box that has grown by half the width times the
  limit of the miter.
-/
theorem Tip.held
    (hExact : Scalar.ExactOrder value)
    (hTip : b.Tip value style p)
    (hFits : extents.Fits value b.points)
    {margin : α}
    (hMargin :
      value style.width / 2 * value style.miterLimit ≤
        value margin) :
    (extents.inflated margin).Holds value p := by
  rcases hTip with
    ⟨-, hWidth, subpath, hSubpath, j, hMeets, hWithin, rfl⟩
  have hOn := Subpath.on_ofSegments b.segments subpath hSubpath
  rcases hMeets.vertex_mem hOn with ⟨q, hMem, hVertex⟩
  have hHolds : extents.Holds value j.vertex := by
    rw [hVertex]
    exact hFits.holds q hMem
  exact
    hHolds.inflated hExact
      ((hWithin.distance_tip hWidth).trans hMargin)

end PathBuilder

end

------------------------------------------------------------
-- Peaks
------------------------------------------------------------

namespace Joint

/- The corner of two lines that go down alike to height zero. -/
noncomputable def summit
    (x y : ℝ) : Joint :=
  let side := √(x ^ 2 + y ^ 2)
  ⟨⟨x, y⟩, ⟨-x / side, -y / side⟩, ⟨x / side, -y / side⟩⟩

variable {x y : ℝ} (hX : 0 < x) (hY : 0 < y)

include hX hY

/- The sine of half the angle is the slope against the vertical. -/
theorem sin_summit :
    Real.sin ((summit x y).angle / 2) = x / √(x ^ 2 + y ^ 2) := by
  have hSide : 0 < √(x ^ 2 + y ^ 2) := by positivity
  have hSquare : √(x ^ 2 + y ^ 2) ^ 2 = x ^ 2 + y ^ 2 :=
    Real.sq_sqrt (by positivity)
  apply sin_half_angle
  · positivity
  · rw [div_le_one hSide]
    exact Real.le_sqrt_of_sq_le (by linarith [sq_nonneg y])
  · simp only [summit]
    field_simp
    linarith

/- The bisector of a summit points straight up. -/
theorem outward_summit :
    (summit x y).outward = ⟨0, 1⟩ := by
  have hSide : 0 < √(x ^ 2 + y ^ 2) := by positivity
  have hSum :
      (summit x y).outward =
        Point.direction ⟨0, -(2 * y / √(x ^ 2 + y ^ 2))⟩ ⟨0, 0⟩ := by
    rw [outward, summit]
    congr 2 <;> ring
  have hLength :
      Point.distance ⟨0, -(2 * y / √(x ^ 2 + y ^ 2))⟩ ⟨0, 0⟩ =
        2 * y / √(x ^ 2 + y ^ 2) := by
    simp only [Point.distance, sub_self, zero_sub, neg_neg]
    rw [zero_pow two_ne_zero, zero_add]
    exact Real.sqrt_sq (by positivity)
  rw [hSum, Point.direction, hLength]
  simp only [sub_self, zero_sub, neg_neg, zero_div]
  rw [div_self (by positivity)]

/- The tip of a summit is straight above it. -/
theorem tip_summit
    (width : ℝ) :
    (summit x y).tip width =
      ⟨x, y + width / 2 * (√(x ^ 2 + y ^ 2) / x)⟩ := by
  rw [tip, reach, sin_summit hX hY, outward_summit hX hY]
  simp only [summit, mul_zero, mul_one, add_zero, div_div_eq_mul_div]
  rw [mul_div_assoc]

end Joint

namespace PathBuilder

variable [Scalar α]

/- A path up to a point and down again on the other side. -/
def peak
    (m h : α) : PathBuilder α :=
  ⟨[.lineTo ⟨m + m, 0⟩, .lineTo ⟨m, h⟩, .moveTo ⟨0, 0⟩], none⟩

variable {value : α → ℝ} (hExact : Scalar.ExactOrder value)
variable {m h : α} (hM : 0 < value m) (hH : 0 < value h)

include hExact hH

/- The corner of a peak is a summit. -/
theorem peak_meets :
    ∃ subpath ∈ (peak m h).subpaths,
      subpath.Meets value (.summit (value m) (value h)) := by
  have hBack :
      Point.direction ⟨value m, value h⟩ (Point.valued value ⟨0, 0⟩) =
        (Joint.summit (value m) (value h)).back := by
    simp [Joint.summit, Point.direction, Point.distance,
      Point.valued, hExact.zero]
  have hAhead :
      Point.direction ⟨value m, value h⟩
          (Point.valued value ⟨m + m, 0⟩) =
        (Joint.summit (value m) (value h)).ahead := by
    simp [Joint.summit, Point.direction, Point.distance,
      Point.valued, hExact.zero, hExact.add]
  have hOff :
      ∀ x : α, Point.valued value ⟨x, 0⟩ ≠ ⟨value m, value h⟩ := by
    intro x hSame
    have hZero : value 0 = value h := congrArg Point.y hSame
    rw [hExact.zero] at hZero
    exact hH.ne hZero
  refine ⟨_, List.mem_cons_self .., [.line ⟨0, 0⟩ ⟨m, h⟩],
    .line ⟨m, h⟩ ⟨m + m, 0⟩, [], rfl, rfl, ?_, ?_⟩
  · rw [← hBack]
    exact .on (.off (hOff 0))
  · rw [← hAhead]
    exact .on (.off (hOff (m + m)))

include hM

/- The extents of a peak end at its summit. -/
theorem high_peak
    {extents : Rectangle α}
    (hFits : extents.Fits value (peak m h).points) :
    (extents.high value).y ≤ value h := by
  refine
    (hFits.smallest ⟨0, 0⟩ ⟨value m + value m, value h⟩ ?_).2.2
  intro p hMem
  simp only [points, peak, segments, List.reverse_cons,
    List.reverse_nil, List.nil_append, List.cons_append,
    List.flatMap_cons, List.flatMap_nil, Segment.points,
    List.mem_cons, List.not_mem_nil, or_false] at hMem
  rcases hMem with rfl | rfl | rfl <;>
    refine ⟨⟨?_, ?_⟩, ?_, ?_⟩ <;>
    simp only [Point.valued, hExact.zero, hExact.add] <;>
    linarith

/-
  A mitered peak sticks out of its extents grown by half the
  width.
-/
theorem peak_sticksOut
    {style : StrokeStyle α}
    (hMiter : style.join = .miter)
    (hWidth : 0 < value style.width)
    (hLimit :
      √(value m ^ 2 + value h ^ 2) / value m ≤
        value style.miterLimit)
    {extents : Rectangle α}
    (hFits : extents.Fits value (peak m h).points) :
    let tip : Point ℝ :=
      ⟨value m, value h + value style.width / 2
        * (√(value m ^ 2 + value h ^ 2) / value m)⟩
    (peak m h).Tip value style tip ∧
      ¬ (extents.inflated (style.width / Nat.cast 2)).Holds value
        tip := by
  have hSide : value m < √(value m ^ 2 + value h ^ 2) :=
    (Real.lt_sqrt hM.le).mpr (by linarith [pow_pos hH 2])
  constructor
  · rcases peak_meets hExact hH with ⟨subpath, hSubpath, hMeets⟩
    refine
      ⟨hMiter, hWidth.le, subpath, hSubpath, _, hMeets, ⟨?_, ?_⟩,
        (Joint.tip_summit hM hH _).symm⟩
    · rw [Joint.sin_summit hM hH]
      exact div_pos hM (hM.trans hSide)
    · rw [Joint.sin_summit hM hH, one_div_div]
      exact hLimit
  · rintro ⟨-, -, hTop⟩
    rw [Rectangle.high_inflated hExact, hExact.value_half] at hTop
    dsimp only at hTop
    have hHigh := high_peak hExact hM hH hFits
    have hLonger :
        value style.width / 2 * 1 <
          value style.width / 2
            * (√(value m ^ 2 + value h ^ 2) / value m) := by
      gcongr
      exact (one_lt_div hM).mpr hSide
    linarith

end PathBuilder

------------------------------------------------------------
-- Clipped strokes
------------------------------------------------------------

/- The miter of a flat summit is hardly longer than one. -/
theorem exists_flat
    {limit : ℝ}
    (hLimit : 1 < limit) :
    ∃ n : ℕ, 0 < (n : ℝ) ∧ √((n : ℝ) ^ 2 + 1 ^ 2) / n ≤ limit := by
  have hMore : 0 < limit - 1 := sub_pos.mpr hLimit
  rcases exists_nat_gt (1 / (limit - 1)) with ⟨n, hLarge⟩
  have hPositive : 0 < (n : ℝ) := (one_div_pos.mpr hMore).trans hLarge
  have hSide : √((n : ℝ) ^ 2 + 1 ^ 2) ≤ n + 1 :=
    Real.sqrt_le_iff.mpr ⟨by positivity, by linarith⟩
  refine ⟨n, hPositive, ?_⟩
  rw [div_lt_iff₀ hMore] at hLarge
  rw [div_le_iff₀ hPositive]
  linarith

namespace PathState

variable [Scalar α] {value : α → ℝ}

/- The box of a stroked path. -/
theorem maskExtents?_stroked
    {state : PathState α}
    (hStroke : state.stroke?.isSome = true)
    {b : PathBuilder α}
    {extents : Rectangle α}
    (hExtents : b.extents? = some extents) :
    state.maskExtents? b =
      some
        (extents.inflated
          (state.strokeStyle.width / Nat.cast 2)) := by
  rcases Option.isSome_iff_exists.mp hStroke with ⟨stroke, hStroke⟩
  rw [maskExtents?, hExtents, hStroke]
  rfl

/-
  A path with a stroke and a mask is clipped to its extents grown
  by half the width before it is drawn. This box holds what is
  within half the width of the path. The tips of its corners need
  not be in the box, but are in the extents grown by as much as
  the limit of the miter allows.

  The box holds whatever is stroked, along whichever path, if and
  only if the style draws no miters, has no width or has a limit
  of at most one, where only what goes straight on has a miter.
-/
theorem stroke_clipped
    (hExact : Scalar.ExactOrder value)
    {state : PathState α}
    (hStroke : state.stroke?.isSome = true)
    (hMask : state.mask?.isSome = true) :
    let style := state.strokeStyle
    let half : α := style.width / Nat.cast 2
    (∀ b : PathBuilder α, b.points ≠ [] →
      ∃ extents,
        b.extents? = some extents ∧ extents.Fits value b.points ∧
          (∀ filled s, ∃ rest,
            (paintPath b state filled s).written =
              s.written
                ++ (boxOperations (extents.inflated half)
                  ++ .pushGroup :: rest)) ∧
          (∀ p, b.Near value style p →
            (extents.inflated half).Holds value p) ∧
          ∀ p, b.Tip value style p →
            (extents.inflated (half * style.miterLimit)).Holds
              value p) ∧
      ((∀ (b : PathBuilder α) box p,
        state.maskExtents? b = some box → b.Strokes value style p →
          box.Holds value p) ↔
        (style.join = .miter → 0 < value style.width →
          value style.miterLimit ≤ 1)) := by
  dsimp only
  have hPaths :
      ∀ b : PathBuilder α, b.points ≠ [] →
        ∃ extents,
          b.extents? = some extents ∧ extents.Fits value b.points :=
    fun b hSome => Rectangle.bounding?_fits hExact hSome
  constructor
  · intro b hSome
    rcases hPaths b hSome with ⟨extents, hExtents, hFits⟩
    have hBox := maskExtents?_stroked hStroke hExtents
    refine
      ⟨extents, hExtents, hFits, PathBuilder.written_masked hMask hBox,
        fun p hNear => hNear.held hExact hFits,
        fun p hTip => hTip.held hExact hFits ?_⟩
    rw [hExact.mul, hExact.value_half]
  constructor
  · intro hHolds hMiter hWidth
    by_contra hLimit
    -- The peak is so flat that even a small limit allows its miter.
    rcases exists_flat (not_le.mp hLimit) with ⟨n, hN, hFlat⟩
    have hM : 0 < value (Nat.cast n) := (hExact.natCast n).symm ▸ hN
    have hH : 0 < value 1 := hExact.one.symm ▸ one_pos
    rw [← hExact.natCast n, ← hExact.one] at hFlat
    rcases hPaths (.peak (Nat.cast n) 1) nofun with
      ⟨extents, hExtents, hFits⟩
    have hPeak :=
      PathBuilder.peak_sticksOut hExact hM hH hMiter hWidth hFlat hFits
    exact
      hPeak.2
        (hHolds _ _ _ (maskExtents?_stroked hStroke hExtents)
          (.inr hPeak.1))
  · intro hStyle b box p hBox hStrokes
    rcases Option.map_eq_some_iff.mp hBox with ⟨extents, hExtents, -⟩
    have hFits := Rectangle.fits_of_bounding? hExact hExtents
    rw [maskExtents?_stroked hStroke hExtents] at hBox
    cases hBox
    rcases hStrokes with hNear | hTip
    · exact hNear.held hExact hFits
    · refine hTip.held hExact hFits ?_
      rcases hTip with ⟨hMiter, hWidth, -⟩
      rw [hExact.value_half]
      -- The style says nothing about strokes without a width.
      rcases hWidth.eq_or_lt with hZero | hPositive
      · rw [← hZero, zero_div, zero_mul]
      · exact
          mul_le_of_le_one_right (half_pos hPositive).le
            (hStyle hMiter hPositive)

end PathState

namespace MiteredPeak

/- The path along which the corner is drawn. -/
def path : PathBuilder ℚ :=
  .peak 3 4

/- A wide stroke in the standard style, and a mask. -/
def state : PathState ℚ :=
  { PathState.initial with
    strokeStyle := { StrokeStyle.standard with width := 6 }
    stroke? := some (.solid ⟨1, 0, 0, 1⟩)
    mask? := some (.solid ⟨0, 0, 0, 1 / 2⟩) }

/-
  The tip of the corner is drawn, but not in the box that the
  path is clipped to.
-/
theorem tip_outside :
    state.stroke?.isSome = true ∧ state.mask?.isSome = true ∧
      path.points ≠ [] ∧
        (∃ rest,
          (paintPath path state true .blank).written =
            boxOperations ⟨-3, -3, 12, 10⟩ ++ .pushGroup :: rest) ∧
          path.Tip Rat.cast state.strokeStyle ⟨3, 9⟩ ∧
            ¬ Rectangle.Holds Rat.cast
              (⟨-3, -3, 12, 10⟩ : Rectangle ℚ) ⟨3, 9⟩ := by
  have hStroke : state.stroke?.isSome = true := rfl
  have hMask : state.mask?.isSome = true := rfl
  have hSome : path.points ≠ [] := nofun
  rcases
    (PathState.stroke_clipped Scalar.exactOrder_rat hStroke hMask).1
      path hSome with
    ⟨extents, hExtents, hFits, hWritten, -⟩
  have hBox :
      extents.inflated (state.strokeStyle.width / Nat.cast 2) =
        ⟨-3, -3, 12, 10⟩ := by
    cases hExtents.symm.trans
      (by decide +kernel : path.extents? = some ⟨0, 0, 6, 4⟩)
    decide +kernel
  have hWidth : ((state.strokeStyle.width : ℚ) : ℝ) = 6 := by
    norm_num [state]
  have hSide : √(((3 : ℚ) : ℝ) ^ 2 + ((4 : ℚ) : ℝ) ^ 2) = 5 := by
    rw [← Real.sqrt_sq (by norm_num : (0 : ℝ) ≤ 5)]
    norm_num
  have hMiter : state.strokeStyle.join = .miter := rfl
  have hLimit : ((state.strokeStyle.miterLimit : ℚ) : ℝ) = 10 :=
    Rat.cast_natCast 10
  have hPeak :=
    PathBuilder.peak_sticksOut Scalar.exactOrder_rat
      (by norm_num : (0 : ℝ) < (3 : ℚ))
      (by norm_num : (0 : ℝ) < (4 : ℚ)) hMiter
      (by rw [hWidth]; norm_num)
      (by rw [hSide, hLimit]; norm_num) hFits
  have hTip :
      (⟨(3 : ℚ), (4 : ℚ) + (6 : ℝ) / 2 * (5 / (3 : ℚ))⟩ : Point ℝ) =
        ⟨3, 9⟩ := by
    norm_num
  rw [hSide, hWidth, hTip, hBox] at hPeak
  refine ⟨hStroke, hMask, hSome, ?_, hPeak⟩
  rw [hBox] at hWritten
  exact hWritten true .blank

end MiteredPeak

end FixedPage
