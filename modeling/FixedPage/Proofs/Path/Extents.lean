import FixedPage.Proofs.Scalar.Exact
import FixedPage.Proofs.Surface.Operations
import Mathlib.Data.Real.Basic
import Mathlib.Tactic.GCongr
import Mathlib.Tactic.Linarith

/-
  This file says which lines and curves a path describes in the
  plane and that its extents hold all of them. The segments of a
  path make up subpaths. A segment goes on from where the one
  before it has ended, and from its own first point if there is
  none before it. A close goes back to where its subpath began.

  A curve stays between the points that it mentions, so a box
  that holds these holds the curve, and whatever a path encloses
  as well.

  Main declarations:
    * `Rectangle.Holds`
    * `Rectangle.Fits`
    * `Stretch`
    * `Subpath`
    * `PathBuilder.subpaths`
    * `PathBuilder.Encloses`
    * `PathBuilder.extents_hold`
-/

namespace FixedPage

variable {α : Type}

/- Rational numbers compute and compare as real numbers do. -/
theorem Scalar.exactOrder_rat :
    Scalar.ExactOrder (Rat.cast : ℚ → ℝ) where
  injective := Rat.cast_injective
  zero := Rat.cast_zero
  one := Rat.cast_one
  natCast := Rat.cast_natCast
  add := Rat.cast_add
  sub := Rat.cast_sub
  mul := Rat.cast_mul
  div x y _ := Rat.cast_div x y
  neg := Rat.cast_neg
  beq _ _ := beq_iff_eq
  lt x y := by
    rw [Rat.cast_lt]
    exact decide_eq_true_iff

------------------------------------------------------------
-- Boxes
------------------------------------------------------------

/- The point whose coordinates have the given values. -/
def Point.valued
    (value : α → ℝ)
    (p : Point α) : Point ℝ :=
  ⟨value p.x, value p.y⟩

/- No coordinate of a point exceeds that of another point. -/
def Point.Under
    (p q : Point ℝ) : Prop :=
  p.x ≤ q.x ∧ p.y ≤ q.y

namespace Rectangle

variable [Scalar α] (value : α → ℝ)

/- The corner at which a box begins. -/
def low
    (r : Rectangle α) : Point ℝ :=
  Point.valued value ⟨r.x, r.y⟩

/- The opposite corner. -/
def high
    (r : Rectangle α) : Point ℝ :=
  Point.valued value ⟨r.x + r.width, r.y + r.height⟩

/- A point lies in a box or on its border. -/
def Holds
    (r : Rectangle α)
    (p : Point ℝ) : Prop :=
  (r.low value).Under p ∧ p.Under (r.high value)

/-
  A box is the smallest one around some points: it holds them,
  and whatever sides they lie between, the box does.
-/
structure Fits
    (r : Rectangle α)
    (points : List (Point α)) : Prop where
  holds : ∀ p ∈ points, r.Holds value (p.valued value)
  smallest :
    ∀ low high : Point ℝ,
      (∀ p ∈ points,
        low.Under (p.valued value) ∧ (p.valued value).Under high) →
        low.Under (r.low value) ∧ (r.high value).Under high

variable {value}

/-
  A box holds a point if there is a point of the box in every
  direction from it.
-/
theorem holds_of_rays
    {r : Rectangle α}
    {p : Point ℝ}
    (hRays :
      ∀ d : Point ℝ, d ≠ ⟨0, 0⟩ →
        ∃ s, 0 ≤ s ∧ r.Holds value ⟨p.x + s * d.x, p.y + s * d.y⟩) :
    r.Holds value p := by
  have hApart :
      ∀ x y : ℝ, x ≠ 0 ∨ y ≠ 0 → (⟨x, y⟩ : Point ℝ) ≠ ⟨0, 0⟩ := by
    rintro x y (hx | hy) hSame
    · exact hx (congrArg Point.x hSame)
    · exact hy (congrArg Point.y hSame)
  -- What is met on the way left bounds the point from the left.
  rcases hRays ⟨-1, 0⟩ (hApart _ _ (by norm_num)) with
    ⟨s₁, hs₁, ⟨hLeft, -⟩, -⟩
  rcases hRays ⟨0, -1⟩ (hApart _ _ (by norm_num)) with
    ⟨s₂, hs₂, ⟨-, hBottom⟩, -⟩
  rcases hRays ⟨1, 0⟩ (hApart _ _ (by norm_num)) with
    ⟨s₃, hs₃, -, hRight, -⟩
  rcases hRays ⟨0, 1⟩ (hApart _ _ (by norm_num)) with
    ⟨s₄, hs₄, -, -, hTop⟩
  dsimp only at hLeft hBottom hRight hTop
  refine ⟨⟨?_, ?_⟩, ?_, ?_⟩ <;> linarith

end Rectangle

------------------------------------------------------------
-- Bounding boxes
------------------------------------------------------------

namespace Rectangle

variable [Scalar α] {value : α → ℝ}

/- What lies under the least corner lies under all points. -/
theorem Bounds.under_least
    (hExact : Scalar.ExactOrder value)
    (points : List (Point α))
    (b : Bounds α)
    (q : Point ℝ) :
    q.Under ((points.foldl Bounds.include b).least.valued value) ↔
      q.Under (b.least.valued value) ∧
        ∀ p ∈ points, q.Under (p.valued value) := by
  induction points generalizing b with
  | nil => simp
  | cons p rest ih =>
      have hInclude :
          q.Under ((b.include p).least.valued value) ↔
            q.Under (b.least.valued value) ∧
              q.Under (p.valued value) := by
        simp only [Bounds.include, Point.valued, Point.Under,
          hExact.value_min, le_min_iff]
        exact and_and_and_comm
      rw [List.foldl_cons, ih, hInclude, List.forall_mem_cons,
        and_assoc]

/- What lies above the greatest corner lies above all points. -/
theorem Bounds.greatest_under
    (hExact : Scalar.ExactOrder value)
    (points : List (Point α))
    (b : Bounds α)
    (q : Point ℝ) :
    ((points.foldl Bounds.include b).greatest.valued value).Under q ↔
      (b.greatest.valued value).Under q ∧
        ∀ p ∈ points, (p.valued value).Under q := by
  induction points generalizing b with
  | nil => simp
  | cons p rest ih =>
      have hInclude :
          ((b.include p).greatest.valued value).Under q ↔
            (b.greatest.valued value).Under q ∧
              (p.valued value).Under q := by
        simp only [Bounds.include, Point.valued, Point.Under,
          hExact.value_max, max_le_iff]
        exact and_and_and_comm
      rw [List.foldl_cons, ih, hInclude, List.forall_mem_cons,
        and_assoc]

/- A box ends at the greatest coordinates. -/
theorem Bounds.high_box
    (hExact : Scalar.ExactOrder value)
    (b : Bounds α) :
    b.box.high value = b.greatest.valued value := by
  simp only [high, box, Point.valued, hExact.add, hExact.sub,
    add_sub_cancel]

/- Around some points there is a smallest box. -/
theorem bounding?_fits
    (hExact : Scalar.ExactOrder value)
    {points : List (Point α)}
    (hSome : points ≠ []) :
    ∃ box, bounding? points = some box ∧ box.Fits value points := by
  cases points with
  | nil => exact absurd rfl hSome
  | cons p rest =>
      let b := rest.foldl Bounds.include ⟨p, p⟩
      have hLeast (low : Point ℝ) :
          low.Under (b.least.valued value) ↔
            ∀ q ∈ p :: rest, low.Under (q.valued value) := by
        rw [Bounds.under_least hExact, List.forall_mem_cons]
      have hGreatest (high : Point ℝ) :
          (b.greatest.valued value).Under high ↔
            ∀ q ∈ p :: rest, (q.valued value).Under high := by
        rw [Bounds.greatest_under hExact, List.forall_mem_cons]
      refine ⟨_, rfl, ⟨?_, ?_⟩⟩
      · intro q hMem
        refine ⟨(hLeast _).mp ⟨le_rfl, le_rfl⟩ q hMem, ?_⟩
        rw [Bounds.high_box hExact]
        exact (hGreatest _).mp ⟨le_rfl, le_rfl⟩ q hMem
      · intro low high hBetween
        refine
          ⟨(hLeast low).mpr fun q hMem => (hBetween q hMem).1, ?_⟩
        rw [Bounds.high_box hExact]
        exact (hGreatest high).mpr fun q hMem => (hBetween q hMem).2

/- A bounding box is the smallest box. -/
theorem fits_of_bounding?
    (hExact : Scalar.ExactOrder value)
    {points : List (Point α)}
    {box : Rectangle α}
    (hBox : bounding? points = some box) :
    box.Fits value points := by
  have hSome : points ≠ [] := by
    rintro rfl
    cases hBox
  rcases bounding?_fits hExact hSome with ⟨box', hBox', hFits⟩
  cases hBox.symm.trans hBox'
  exact hFits

end Rectangle

------------------------------------------------------------
-- Lines and curves
------------------------------------------------------------

/- A line, or a cubic curve with its control points. -/
inductive Stretch (α : Type) where
  | line
      (p q : Point α)
  | curve
      (p₀ p₁ p₂ p₃ : Point α)
deriving DecidableEq, Repr

namespace Stretch

/- The points that a stretch is given by, in order. -/
def points : Stretch α → List (Point α)
| line p q => [p, q]
| curve p₀ p₁ p₂ p₃ => [p₀, p₁, p₂, p₃]

/- A coordinate of the point at a part of the way. -/
noncomputable def coordinate
    (f : Point α → ℝ)
    (t : ℝ) : Stretch α → ℝ
| line p q => (1 - t) * f p + t * f q
| curve p₀ p₁ p₂ p₃ =>
    (1 - t) ^ 3 * f p₀ + 3 * (1 - t) ^ 2 * t * f p₁
      + 3 * (1 - t) * t ^ 2 * f p₂ + t ^ 3 * f p₃

/- The point at a part of the way. -/
noncomputable def pointAt
    (value : α → ℝ)
    (t : ℝ)
    (s : Stretch α) : Point ℝ :=
  ⟨s.coordinate (fun p => value p.x) t,
    s.coordinate (fun p => value p.y) t⟩

/- A stretch passes a point on its way. -/
def Passes
    (value : α → ℝ)
    (s : Stretch α)
    (p : Point ℝ) : Prop :=
  ∃ t, 0 ≤ t ∧ t ≤ 1 ∧ p = s.pointAt value t

variable {f : Point α → ℝ} {s : Stretch α} {c t : ℝ}

/- A stretch stays on the side on which all its points are. -/
theorem coordinate_le
    (hPoints : ∀ p ∈ s.points, f p ≤ c)
    (hFrom : 0 ≤ t)
    (hTo : t ≤ 1) :
    s.coordinate f t ≤ c := by
  have hRest : 0 ≤ 1 - t := sub_nonneg.mpr hTo
  cases s with
  | line p q =>
      simp only [points, List.forall_mem_cons] at hPoints
      rcases hPoints with ⟨hp, hq, -⟩
      calc
        (1 - t) * f p + t * f q ≤ (1 - t) * c + t * c := by gcongr
        _ = c := by ring
  | curve p₀ p₁ p₂ p₃ =>
      simp only [points, List.forall_mem_cons] at hPoints
      rcases hPoints with ⟨h₀, h₁, h₂, h₃, -⟩
      -- The weights of the four points add up to one.
      calc
        (1 - t) ^ 3 * f p₀ + 3 * (1 - t) ^ 2 * t * f p₁
              + 3 * (1 - t) * t ^ 2 * f p₂ + t ^ 3 * f p₃
            ≤ (1 - t) ^ 3 * c + 3 * (1 - t) ^ 2 * t * c
              + 3 * (1 - t) * t ^ 2 * c + t ^ 3 * c := by gcongr
        _ = c := by ring

/- Turning the axis around turns the coordinate around. -/
theorem coordinate_neg :
    s.coordinate (fun p => -f p) t = -s.coordinate f t := by
  cases s <;> simp only [coordinate] <;> ring

theorem le_coordinate
    (hPoints : ∀ p ∈ s.points, c ≤ f p)
    (hFrom : 0 ≤ t)
    (hTo : t ≤ 1) :
    c ≤ s.coordinate f t := by
  have hTurned : s.coordinate (fun p => -f p) t ≤ -c :=
    coordinate_le (fun p hMem => neg_le_neg (hPoints p hMem)) hFrom
      hTo
  rw [coordinate_neg] at hTurned
  exact neg_le_neg_iff.mp hTurned

/- A box that holds the points of a stretch holds all of it. -/
theorem Passes.held
    [Scalar α]
    {value : α → ℝ}
    {p : Point ℝ}
    (hPasses : s.Passes value p)
    {box : Rectangle α}
    (hPoints : ∀ q ∈ s.points, box.Holds value (q.valued value)) :
    box.Holds value p := by
  rcases hPasses with ⟨t, hFrom, hTo, rfl⟩
  exact
    ⟨⟨le_coordinate (fun q hMem => (hPoints q hMem).1.1) hFrom hTo,
        le_coordinate (fun q hMem => (hPoints q hMem).1.2) hFrom hTo⟩,
      coordinate_le (fun q hMem => (hPoints q hMem).2.1) hFrom hTo,
      coordinate_le (fun q hMem => (hPoints q hMem).2.2) hFrom hTo⟩

end Stretch

------------------------------------------------------------
-- Subpaths
------------------------------------------------------------

/-
  Stretches that follow one another, from a start to a finish. A
  closed subpath has its closing line as the last stretch.
-/
structure Subpath (α : Type) where
  start : Point α
  finish : Point α
  stretches : List (Stretch α)
  isClosed : Bool
deriving DecidableEq, Repr

namespace Subpath

/- A subpath that has just begun. -/
def begun
    (p : Point α) : Subpath α :=
  ⟨p, p, [], false⟩

/- Goes on along a line. -/
def lineTo
    (s : Subpath α)
    (p : Point α) : Subpath α :=
  { s with
    finish := p
    stretches := s.stretches ++ [.line s.finish p] }

/- Goes on along a curve. -/
def curveTo
    (s : Subpath α)
    (p₁ p₂ p₃ : Point α) : Subpath α :=
  { s with
    finish := p₃
    stretches := s.stretches ++ [.curve s.finish p₁ p₂ p₃] }

/- Goes back to the start. -/
def close
    (s : Subpath α) : Subpath α :=
  { s.lineTo s.start with isClosed := true }

/-
  The subpath under way and those after it. After a close, the
  next one begins where the closed one did.
-/
def walk
    (now : Subpath α) :
    List (Segment α) → List (Subpath α)
| [] => [now]
| .moveTo p :: rest => now :: walk (begun p) rest
| .lineTo p :: rest => walk (now.lineTo p) rest
| .curveTo p₁ p₂ p₃ :: rest => walk (now.curveTo p₁ p₂ p₃) rest
| .close :: rest => now.close :: walk (begun now.start) rest

/-
  The subpaths of some segments. A line or a curve with no point
  before it begins at its own first point, and a close with no
  point before it does nothing.
-/
def ofSegments :
    List (Segment α) → List (Subpath α)
| [] => []
| .moveTo p :: rest => walk (begun p) rest
| .lineTo p :: rest => walk ((begun p).lineTo p) rest
| .curveTo p₁ p₂ p₃ :: rest =>
    walk ((begun p₁).curveTo p₁ p₂ p₃) rest
| .close :: rest => ofSegments rest

/- The border of what a subpath encloses once it is closed. -/
def border
    (s : Subpath α) : List (Stretch α) :=
  s.stretches ++ [.line s.finish s.start]

/- A subpath is given by some of the given points. -/
structure On
    (points : List (Point α))
    (s : Subpath α) : Prop where
  start : s.start ∈ points
  finish : s.finish ∈ points
  stretches : ∀ stretch ∈ s.stretches, stretch.points ⊆ points

variable {points : List (Point α)} {s : Subpath α}

theorem On.begun
    {p : Point α}
    (hMem : p ∈ points) :
    (Subpath.begun p).On points :=
  ⟨hMem, hMem, fun _ hStretch => by cases hStretch⟩

/- One more stretch between the given points changes nothing. -/
theorem On.snoc
    (hOn : s.On points)
    {new : Stretch α}
    (hNew : new.points ⊆ points) :
    ∀ stretch ∈ s.stretches ++ [new], stretch.points ⊆ points := by
  intro stretch hStretch
  rcases List.mem_append.mp hStretch with hOld | hLast
  · exact hOn.stretches stretch hOld
  · rcases List.mem_singleton.mp hLast with rfl
    exact hNew

theorem On.lineTo
    (hOn : s.On points)
    {p : Point α}
    (hMem : p ∈ points) :
    (s.lineTo p).On points :=
  ⟨hOn.start, hMem,
    hOn.snoc (by simp [Stretch.points, hOn.finish, hMem])⟩

theorem On.curveTo
    (hOn : s.On points)
    {p₁ p₂ p₃ : Point α}
    (hMem : [p₁, p₂, p₃] ⊆ points) :
    (s.curveTo p₁ p₂ p₃).On points :=
  ⟨hOn.start, hMem (show p₃ ∈ [p₁, p₂, p₃] by simp),
    hOn.snoc (List.cons_subset.mpr ⟨hOn.finish, hMem⟩)⟩

theorem On.close
    (hOn : s.On points) :
    s.close.On points :=
  let hLine := hOn.lineTo hOn.start
  ⟨hLine.start, hLine.finish, hLine.stretches⟩

/- A walk visits the points that its segments mention. -/
theorem on_walk
    {segments : List (Segment α)}
    (hMentioned : segments.flatMap Segment.points ⊆ points)
    {now : Subpath α}
    (hNow : now.On points) :
    ∀ s ∈ walk now segments, s.On points := by
  induction segments generalizing now with
  | nil => simpa [walk] using hNow
  | cons segment rest ih =>
      rw [List.flatMap_cons, List.append_subset] at hMentioned
      rcases hMentioned with ⟨hFirst, hRest⟩
      cases segment with
      | moveTo p =>
          have hMem : p ∈ points := hFirst (by simp [Segment.points])
          rw [walk, List.forall_mem_cons]
          exact ⟨hNow, ih hRest (.begun hMem)⟩
      | lineTo p =>
          have hMem : p ∈ points := hFirst (by simp [Segment.points])
          exact ih hRest (hNow.lineTo hMem)
      | curveTo p₁ p₂ p₃ => exact ih hRest (hNow.curveTo hFirst)
      | close =>
          rw [walk, List.forall_mem_cons]
          exact ⟨hNow.close, ih hRest (.begun hNow.start)⟩

/- All subpaths are given by points that the segments mention. -/
theorem on_ofSegments
    (segments : List (Segment α)) :
    ∀ s ∈ ofSegments segments,
      s.On (segments.flatMap Segment.points) := by
  induction segments with
  | nil => simp [ofSegments]
  | cons segment rest ih =>
      rw [List.flatMap_cons]
      cases segment with
      | moveTo p =>
          exact
            on_walk (List.subset_append_right ..)
              (.begun (by simp [Segment.points]))
      | lineTo p =>
          have hMem :
              p ∈ (Segment.lineTo p).points
                ++ rest.flatMap Segment.points := by
            simp [Segment.points]
          exact
            on_walk (List.subset_append_right ..)
              ((On.begun hMem).lineTo hMem)
      | curveTo p₁ p₂ p₃ =>
          exact
            on_walk (List.subset_append_right ..)
              ((On.begun (by simp [Segment.points])).curveTo
                (List.subset_append_left ..))
      | close => exact ih

/- The border is given by the same points. -/
theorem On.border
    (hOn : s.On points) :
    ∀ stretch ∈ s.border, stretch.points ⊆ points :=
  hOn.snoc (by simp [Stretch.points, hOn.start, hOn.finish])

end Subpath

------------------------------------------------------------
-- Extents
------------------------------------------------------------

namespace PathBuilder

/- The points that a path mentions, control points included. -/
def points
    (b : PathBuilder α) : List (Point α) :=
  b.segments.flatMap Segment.points

/- The subpaths of a path. -/
def subpaths
    (b : PathBuilder α) : List (Subpath α) :=
  Subpath.ofSegments b.segments

/-
  Whichever way one leaves a point straight on, one meets the
  border of a subpath. Where that is not so, the path does not
  wind around the point and the way out crosses it nowhere, so
  neither rule counts the point as inside.
-/
def Encloses
    (value : α → ℝ)
    (b : PathBuilder α)
    (p : Point ℝ) : Prop :=
  ∀ d : Point ℝ, d ≠ ⟨0, 0⟩ →
    ∃ s, 0 ≤ s ∧
      ∃ subpath ∈ b.subpaths, ∃ stretch ∈ subpath.border,
        stretch.Passes value ⟨p.x + s * d.x, p.y + s * d.y⟩

variable [Scalar α] {value : α → ℝ}

/- A box around the points of a path holds its borders. -/
theorem held_of_border
    {b : PathBuilder α}
    {box : Rectangle α}
    (hFits : box.Fits value b.points)
    {subpath : Subpath α}
    (hSubpath : subpath ∈ b.subpaths)
    {stretch : Stretch α}
    (hStretch : stretch ∈ subpath.border)
    {p : Point ℝ}
    (hPasses : stretch.Passes value p) :
    box.Holds value p :=
  let hOn := Subpath.on_ofSegments b.segments subpath hSubpath
  hPasses.held fun q hMem =>
    hFits.holds q (hOn.border stretch hStretch hMem)

/- A box around the points of a path holds what it encloses. -/
theorem Encloses.held
    {b : PathBuilder α}
    {p : Point ℝ}
    (hEncloses : b.Encloses value p)
    {box : Rectangle α}
    (hFits : box.Fits value b.points) :
    box.Holds value p := by
  apply Rectangle.holds_of_rays
  intro d hAway
  rcases hEncloses d hAway with
    ⟨s, hFrom, subpath, hSubpath, stretch, hStretch, hPasses⟩
  exact ⟨s, hFrom, held_of_border hFits hSubpath hStretch hPasses⟩

/-
  A path with a mask is drawn in a group of its own, and the clip
  is narrowed to its box before.
-/
theorem written_masked
    {state : PathState α}
    (hMask : state.mask?.isSome = true)
    {b : PathBuilder α}
    {box : Rectangle α}
    (hBox : state.maskExtents? b = some box)
    (filled : Bool)
    (s : Surface α) :
    ∃ rest,
      (paintPath b state filled s).written =
        s.written ++ (boxOperations box ++ .pushGroup :: rest) := by
  rcases written_paintPath b state filled s with
    ⟨ends, -, hWritten⟩
  rcases Option.isSome_iff_exists.mp hMask with ⟨mask, hMask⟩
  have hBegin :
      beginMaskOperations state b =
        boxOperations box ++ [.pushGroup] := by
    rw [beginMaskOperations, hMask, hBox]
    rfl
  simp only [hWritten, hBegin, List.append_assoc, List.singleton_append]
  exact ⟨_, rfl⟩

/-
  The extents of a path that mentions a point are the smallest
  box around all points that it mentions. They hold every line,
  closing line and curve of the path and all that it encloses.

  A path that is filled through a mask, and not stroked, is
  clipped to them before it is drawn.
-/
theorem extents_hold
    (hExact : Scalar.ExactOrder value)
    (b : PathBuilder α)
    (hSome : b.points ≠ []) :
    ∃ box,
      b.extents? = some box ∧ box.Fits value b.points ∧
        (∀ subpath ∈ b.subpaths, ∀ stretch ∈ subpath.stretches,
          ∀ t, 0 ≤ t → t ≤ 1 →
            box.Holds value (stretch.pointAt value t)) ∧
        (∀ p, b.Encloses value p → box.Holds value p) ∧
        ∀ (state : PathState α) filled s,
          state.mask?.isSome = true → state.stroke? = none →
            ∃ rest,
              (paintPath b state filled s).written =
                s.written
                  ++ (boxOperations box ++ .pushGroup :: rest) := by
  rcases Rectangle.bounding?_fits hExact hSome with
    ⟨box, hBox, hFits⟩
  refine ⟨box, hBox, hFits, ?_, fun p hIn => hIn.held hFits, ?_⟩
  · intro subpath hSubpath stretch hStretch t hFrom hTo
    exact
      held_of_border hFits hSubpath (List.mem_append_left _ hStretch)
        ⟨t, hFrom, hTo, rfl⟩
  · intro state filled s hMask hStroke
    apply written_masked hMask
    rw [PathState.maskExtents?, hStroke]
    exact congrArg _ hBox

end PathBuilder

namespace Arch

/- A closed path over a curve that is wider than its ends. -/
def path : PathBuilder ℚ :=
  ⟨[.close, .curveTo ⟨-5, 10⟩ ⟨20, 10⟩ ⟨10, 0⟩, .moveTo ⟨0, 0⟩],
    none⟩

/- The extents of the arch hold all of its curve. -/
theorem curve_inside :
    path.points ≠ [] ∧
      ∃ box,
        path.extents? = some box ∧ box = ⟨-5, 0, 25, 10⟩ ∧
          ∀ t : ℝ, 0 ≤ t → t ≤ 1 →
            box.Holds Rat.cast
              (Stretch.pointAt Rat.cast t
                (.curve ⟨0, 0⟩ ⟨-5, 10⟩ ⟨20, 10⟩ ⟨10, 0⟩)) := by
  have hSome : path.points ≠ [] := nofun
  rcases PathBuilder.extents_hold Scalar.exactOrder_rat path hSome with
    ⟨box, hBox, -, hInside, -⟩
  refine ⟨hSome, box, hBox, ?_, ?_⟩
  · exact Option.some.inj (hBox.symm.trans (by decide +kernel))
  · exact
      hInside _ (List.mem_cons_self ..) _ (List.mem_cons_self ..)

end Arch

end FixedPage
