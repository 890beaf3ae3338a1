import FixedPage.Proofs.Geometry.Matrix
import FixedPage.Proofs.Glyph.Composition

/-
  This file compares the two directions of a glyph run. Under a
  font matrix that neither turns nor shears, a run from right to
  left is the run from left to right seen in a mirror that stands
  at the origin: the stretch of a glyph from its position to its
  natural advance is reflected, whatever advance its entry gives,
  and nothing else changes.

  Main declarations:
    * `PositionedGlyph.mirrored`
    * `Indices.Machine.mirrored`
    * `emit_mirrored`
    * `run_mirrored`
    * `layoutGlyphs_mirrored`
-/

namespace FixedPage

section Definitions

variable {α : Type} [Scalar α]

/- A matrix that neither turns nor shears. -/
structure Matrix.Upright
    (m : Matrix α) : Prop where
  yx : m.yx = 0
  xy : m.xy = 0

/- A run that is not sideways, from left to right. -/
def Placement.rightward
    (origin : Point α) : Placement α :=
  ⟨origin, false, false⟩

/- A run that is not sideways, from right to left. -/
def Placement.leftward
    (origin : Point α) : Placement α :=
  ⟨origin, true, false⟩

/- The mirror image of a point across a vertical axis. -/
def Point.mirrored
    (axis : α)
    (p : Point α) : Point α :=
  ⟨Nat.cast 2 * axis - p.x, p.y⟩

/-
  The mirror image of a glyph. Its position is the image of the
  other end of its natural advance.
-/
def PositionedGlyph.mirrored
    (f : ScaledFont α)
    (axis : α)
    (g : PositionedGlyph α) : PositionedGlyph α where
  index := g.index
  position :=
    ⟨Nat.cast 2 * axis - g.position.x - (f.extents g.index).advance.x,
      g.position.y⟩

/- The mirror image of a layout. -/
def GlyphLayout.mirrored
    (f : ScaledFont α)
    (axis : α)
    (l : GlyphLayout α) : GlyphLayout α :=
  ⟨l.glyphs.map (PositionedGlyph.mirrored f axis), l.clusters⟩

namespace Indices.Machine

/- The mirror image of a machine: its pen and what it has placed. -/
def mirrored
    (f : ScaledFont α)
    (axis : α)
    (m : Machine α) : Machine α :=
  { m with
    pen := m.pen.mirrored axis
    glyphs := m.glyphs.map (PositionedGlyph.mirrored f axis) }

/- The glyph that a machine places next. -/
def nextGlyph
    (f : ScaledFont α)
    (q : Placement α)
    (m : Machine α) : PositionedGlyph α :=
  let index := m.glyphIndex f
  let offset := m.pageOffset f q
  ⟨index,
    q.shift (f.extents index)
      ⟨m.pen.x + offset.x, m.pen.y - offset.y⟩⟩

/- Where the pen is behind it. -/
def nextPen
    (f : ScaledFont α)
    (q : Placement α)
    (m : Machine α) : Point α :=
  let advance := m.pageAdvance f q (f.extents (m.glyphIndex f))
  ⟨m.pen.x + q.direct advance.x, m.pen.y + advance.y⟩

/- A machine once it has placed a glyph and moved the pen. -/
def placed
    (glyph : PositionedGlyph α)
    (pen : Point α)
    (m : Machine α) : Machine α :=
  let next : Machine α :=
    { m with
      mode := .entry
      pen := pen
      index? := none
      advance? := none
      offset := .origin
      pending := false
      glyphs := glyph :: m.glyphs }
  if m.remaining ≤ 1 then
    { next with
      text := m.text.drop m.clusterChars
      clusters :=
        ⟨utf8Length (m.text.take m.clusterChars), m.spread⟩
          :: m.clusters
      chars := 0
      spread := 1
      remaining := 1 }
  else
    { next with
      chars := m.clusterChars
      remaining := m.remaining - 1 }

/- Placing a glyph depends on the direction in two ways only. -/
theorem emit_eq_placed
    (f : ScaledFont α)
    (q : Placement α)
    (m : Machine α) :
    m.emit f q = m.placed (m.nextGlyph f q) (m.nextPen f q) :=
  rfl

/- The image of a glyph placed is the glyph placed in the image. -/
theorem placed_mirrored
    (f : ScaledFont α)
    (axis : α)
    (glyph : PositionedGlyph α)
    (pen : Point α)
    (m : Machine α) :
    (m.mirrored f axis).placed (glyph.mirrored f axis)
        (pen.mirrored axis) =
      (m.placed glyph pen).mirrored f axis := by
  have hSame : (m.mirrored f axis).remaining = m.remaining := rfl
  by_cases hLast : m.remaining ≤ 1
  · simp only [placed, hSame, if_pos hLast]
    rfl
  · simp only [placed, hSame, if_neg hLast]
    rfl

end Indices.Machine

end Definitions

-- The theorems on machines stand outside of their namespace, in
-- which a field is a part of an entry.

open Indices (Machine Fault Placed Mode)

variable {α K : Type} [Scalar α] [Field K] {value : α → K}

------------------------------------------------------------
-- Points
------------------------------------------------------------

/- A point on the axis is its own image. -/
theorem Point.mirrored_self
    (hExact : Scalar.Exact value)
    (p : Point α) :
    p.mirrored p.x = p := by
  refine hExact.point_ext ?_ rfl
  simp only [mirrored, hExact.sub, hExact.mul, hExact.natCast]
  push_cast
  ring

/- What moves a point to the right moves its image to the left. -/
theorem Point.mirrored_move
    (hExact : Scalar.Exact value)
    (axis x y move : α) :
    Point.mirrored axis ⟨x + move, y⟩ =
      ⟨Nat.cast 2 * axis - x + -move, y⟩ := by
  refine hExact.point_ext ?_ rfl
  simp only [mirrored, hExact.add, hExact.sub, hExact.neg]
  ring

/- An upright matrix keeps the axes apart. -/
theorem Matrix.Upright.applyVector
    (hExact : Scalar.Exact value)
    {m : Matrix α}
    (hUpright : m.Upright)
    (v : Point α) :
    m.applyVector v = ⟨m.xx * v.x, m.yy * v.y⟩ := by
  apply hExact.point_ext
  · simp only [Matrix.applyVector, hUpright.xy, hExact.add, hExact.mul,
      hExact.zero]
    ring
  · simp only [Matrix.applyVector, hUpright.yx, hExact.add, hExact.mul,
      hExact.zero]
    ring

/-
  A glyph whose place is the image of another one's is its image,
  since the run from right to left takes off its natural advance.
-/
theorem PositionedGlyph.shift_mirrored
    (hExact : Scalar.Exact value)
    (f : ScaledFont α)
    (axis : α)
    (origin p : Point α)
    (index : Nat) :
    (⟨index,
        (Placement.leftward origin).shift (f.extents index)
          (p.mirrored axis)⟩ : PositionedGlyph α) =
      PositionedGlyph.mirrored f axis
        ⟨index,
          (Placement.rightward origin).shift (f.extents index) p⟩ := by
  rw [PositionedGlyph.mirrored, PositionedGlyph.mk.injEq]
  refine ⟨rfl, hExact.point_ext ?_ rfl⟩
  simp only [Placement.shift, Placement.leftward, Placement.rightward,
    Point.mirrored, if_true, Bool.false_eq_true, if_false]

------------------------------------------------------------
-- Texts
------------------------------------------------------------

/- A text is laid out as in a mirror. -/
theorem GlyphLayout.ofText_mirrored
    (hExact : Scalar.Exact value)
    (f : ScaledFont α)
    (axis : α)
    (origin pen : Point α)
    (text : List Char) :
    ofText f (.leftward origin) (pen.mirrored axis) text =
      (ofText f (.rightward origin) pen text).mirrored f axis := by
  induction text generalizing pen with
  | nil => rfl
  | cons c rest ih =>
      have hRest :=
        ih ⟨pen.x + (f.extents (f.glyph c)).advance.x, pen.y⟩
      rw [Point.mirrored_move hExact] at hRest
      change
        GlyphLayout.cons _ _ (ofText f (.leftward origin) _ rest) = _
      rw [PositionedGlyph.shift_mirrored hExact]
      exact congrArg (GlyphLayout.cons _ _) hRest

------------------------------------------------------------
-- Entries
------------------------------------------------------------

section Machine

variable
  (hExact : Scalar.Exact value)
  {f : ScaledFont α}
  (hUpright : f.matrix.Upright)
  (axis : α)
  (origin : Point α)

include hExact hUpright

/- Offsets along the line are turned around, those across it stay. -/
theorem pageOffset_leftward
    (m : Machine α) :
    m.pageOffset f (.leftward origin) =
      ⟨-(m.pageOffset f (.rightward origin)).x,
        (m.pageOffset f (.rightward origin)).y⟩ := by
  change
    f.matrix.applyVector ⟨-m.offset.x, m.offset.y⟩ =
      ⟨-(f.matrix.applyVector m.offset).x,
        (f.matrix.applyVector m.offset).y⟩
  rw [hUpright.applyVector hExact, hUpright.applyVector hExact]
  refine hExact.point_ext ?_ rfl
  simp only [hExact.mul, hExact.neg]
  ring

theorem nextGlyph_mirrored
    (m : Machine α) :
    (m.mirrored f axis).nextGlyph f (.leftward origin) =
      (m.nextGlyph f (.rightward origin)).mirrored f axis := by
  have hOffset := pageOffset_leftward hExact hUpright origin m
  have hImage :
      (m.mirrored f axis).nextGlyph f (.leftward origin) =
        ⟨m.glyphIndex f,
          (Placement.leftward origin).shift
            (f.extents (m.glyphIndex f))
            ⟨(m.pen.mirrored axis).x
                + (m.pageOffset f (.leftward origin)).x,
              m.pen.y - (m.pageOffset f (.leftward origin)).y⟩⟩ :=
    rfl
  rw [hImage, hOffset, Machine.nextGlyph,
    ← PositionedGlyph.shift_mirrored hExact f axis origin,
    Point.mirrored_move hExact]
  rfl

/-
  The mirror image of a machine places the mirror image of the
  next glyph and is left as the image of what it was.
-/
theorem emit_mirrored
    (m : Machine α) :
    (m.mirrored f axis).emit f (.leftward origin) =
      (m.emit f (.rightward origin)).mirrored f axis := by
  have hPen :
      (m.mirrored f axis).nextPen f (.leftward origin) =
        (m.nextPen f (.rightward origin)).mirrored axis :=
    (Point.mirrored_move hExact axis _ _ _).symm
  rw [Machine.emit_eq_placed, Machine.emit_eq_placed, hPen,
    nextGlyph_mirrored hExact hUpright, Machine.placed_mirrored]

------------------------------------------------------------
-- Runs
------------------------------------------------------------

theorem dispatch_mirrored
    (m : Machine α)
    (p : Placed α) :
    (m.mirrored f axis).dispatch f (.leftward origin) p =
      (m.dispatch f (.rightward origin) p).map
        (Machine.mirrored f axis) := by
  obtain ⟨t, offset⟩ := p
  cases t with
  | number x =>
      simp only [Machine.dispatch]
      split <;> rfl
  | semicolon =>
      simp only [Machine.dispatch, emit_mirrored hExact hUpright]
      rfl
  | _ => rfl

/- A token does the same in the mirror, or fails in the same way. -/
theorem step_mirrored
    (m : Machine α)
    (p : Placed α) :
    (m.mirrored f axis).step f (.leftward origin) p =
      (m.step f (.rightward origin) p).map
        (Machine.mirrored f axis) := by
  have hDispatch := dispatch_mirrored hExact hUpright axis origin m
  obtain ⟨t, offset⟩ := p
  have hSame : (m.mirrored f axis).mode = m.mode := rfl
  cases hMode : m.mode <;> cases t <;>
    rw [hMode] at hSame <;>
    simp only [Machine.step, hMode, hSame] <;>
    first
    | rfl
    | exact hDispatch _

/- So does what is left of the text at the end. -/
theorem drain_mirrored
    (m : Machine α) :
    (m.mirrored f axis).drain f (.leftward origin) =
      (m.drain f (.rightward origin)).mirrored f axis := by
  generalize hRight : Placement.rightward origin = q
  fun_induction Machine.drain f q m with
  | case1 m hText =>
      exact Machine.drain_of_nil (m := m.mirrored f axis) f _ hText
  | case2 m hText _ ih =>
      subst hRight
      rw [Machine.drain_of_ne (m := m.mirrored f axis) f _ hText,
        emit_mirrored hExact hUpright, ih]

theorem finish_mirrored
    (m : Machine α) :
    (m.mirrored f axis).finish f (.leftward origin) =
      (m.finish f (.rightward origin)).mirrored f axis := by
  have hEntry :
      (m.mirrored f axis).lastEntry f (.leftward origin) =
        (m.lastEntry f (.rightward origin)).mirrored f axis := by
    have hPlaced :
        ((m.mirrored f axis).pending ||
            !(m.mirrored f axis).text.isEmpty ||
            (m.mirrored f axis).glyphs.isEmpty) =
          (m.pending || !m.text.isEmpty || m.glyphs.isEmpty) :=
      congrArg (m.pending || !m.text.isEmpty || ·) List.isEmpty_map
    rw [Machine.lastEntry, Machine.lastEntry, hPlaced]
    split
    · exact emit_mirrored hExact hUpright axis origin m
    · rfl
  rw [Machine.finish_eq, Machine.finish_eq, hEntry,
    drain_mirrored hExact hUpright]
  simp only [Machine.mirrored, GlyphLayout.mirrored, List.map_reverse]

/-
  A run from right to left is the image of the run from left to
  right, or fails in the same way.
-/
theorem run_mirrored
    (ending : PathData.Ending)
    (tokens : List (Placed α))
    (m : Machine α) :
    (m.mirrored f axis).run f (.leftward origin) ending tokens =
      (m.run f (.rightward origin) ending tokens).map
        (GlyphLayout.mirrored f axis) := by
  induction tokens generalizing m with
  | nil =>
      cases ending with
      | malformed offset text => rfl
      | complete offset =>
          have hSame : (m.mirrored f axis).mode = m.mode := rfl
          simp only [Machine.run, hSame,
            finish_mirrored hExact hUpright]
          cases Machine.Mode.required? m.mode <;> rfl
  | cons p rest ih =>
      simp only [Machine.run, step_mirrored hExact hUpright]
      cases m.step f (.rightward origin) p with
      | error fault => rfl
      | ok next => exact ih next

end Machine

/-
  Without rounding, a run that is not sideways is laid out from
  right to left exactly if it is from left to right, and fails in
  the same way otherwise. Glyph indices, clusters and heights are
  the same; a glyph whose place is at `x` from left to right is at
  twice the origin less `x` less its natural advance.
-/
theorem layoutGlyphs_mirrored
    (hExact : Scalar.Exact value)
    {f : ScaledFont α}
    (hUpright : f.matrix.Upright)
    (origin : Point α)
    (text : String)
    (indices? : Option String) :
    layoutGlyphs f (.leftward origin) text indices? =
      (layoutGlyphs f (.rightward origin) text indices?).map
        (GlyphLayout.mirrored f origin.x) := by
  have hOrigin := Point.mirrored_self hExact origin
  have hStart :
      (Machine.initial (.rightward origin) text.toList).mirrored f
          origin.x =
        Machine.initial (.leftward origin) text.toList := by
    simp only [Machine.mirrored, Machine.initial, Placement.rightward,
      hOrigin, List.map_nil]
    rfl
  unfold layoutGlyphs
  cases indices?.filter fun indices => !indices.isEmpty with
  | none =>
      have hText :=
        GlyphLayout.ofText_mirrored hExact f origin.x origin origin
          text.toList
      rw [hOrigin] at hText
      by_cases hEmpty : text.isEmpty = true
      · simp only [hEmpty, if_true]
        rfl
      · simp only [hEmpty]
        exact congrArg Except.ok hText
  | some indices =>
      simp only [Indices.layout]
      rw [← hStart, run_mirrored hExact hUpright]
      generalize Machine.run f (.rightward origin) _ _ _ = outcome
      cases outcome <;> rfl

section Reversal

open Indices (Cluster Spells)

/- A glyph that its entry moves and makes half as wide. -/
def movedGlyph : Cluster ℚ where
  first := ⟨none, some 5, some (.across (some 50) (some 20) 30)⟩
  more := []
  complete := rfl
  plain := by simp

/- A glyph as the font has it. -/
def plainGlyph : Cluster ℚ where
  first := ⟨none, some 6, none⟩
  more := []
  complete := rfl
  plain := by simp

/- The two glyphs, in a run from left to right and back. -/
theorem layoutGlyphs_reversed :
    let indices := some "5,50,20,30;6"
    let right : GlyphLayout ℚ :=
      ⟨[⟨5, ⟨51 / 5, 197 / 10⟩⟩, ⟨6, ⟨21 / 2, 20⟩⟩],
        [⟨1, 1⟩, ⟨1, 1⟩]⟩
    let left : GlyphLayout ℚ :=
      ⟨[⟨5, ⟨44 / 5, 197 / 10⟩⟩, ⟨6, ⟨17 / 2, 20⟩⟩],
        [⟨1, 1⟩, ⟨1, 1⟩]⟩
    Scalar.Exact (ExactScalar.value : ℚ → ℚ) ∧
      unitFont.matrix.Upright ∧
      layoutGlyphs unitFont (.rightward ⟨10, 20⟩) "ab" indices =
        .ok right ∧
      layoutGlyphs unitFont (.leftward ⟨10, 20⟩) "ab" indices =
        .ok left := by
  intro indices right left
  have hExact : Scalar.Exact (ExactScalar.value : ℚ → ℚ) :=
    ExactNegation.exact
  have hUpright : unitFont.matrix.Upright := ⟨rfl, rfl⟩
  have hSpells :
      Spells "5,50,20,30;6".toList
        (([movedGlyph] ++ [plainGlyph]).flatMap Cluster.entries) :=
    ⟨[.number 5, .comma, .number 50, .comma, .number 20, .comma,
        .number 30, .semicolon, .number 6],
      ⟨by decide +kernel, 12, by decide +kernel⟩, rfl,
      by decide +kernel⟩
  have hLayout :
      Cluster.layout unitFont (.rightward ⟨10, 20⟩) ⟨10, 20⟩
          ([movedGlyph] ++ [plainGlyph]) "ab".toList =
        right := by
    decide +kernel
  have hRight :
      layoutGlyphs unitFont (.rightward ⟨10, 20⟩)
          (String.ofList
            (Cluster.taken ([movedGlyph] ++ [plainGlyph]) "ab".toList))
          indices =
        .ok right :=
    (Indices.layoutGlyphs_taken hSpells
      (.inl (List.cons_ne_nil _ _))).trans (congrArg Except.ok hLayout)
  have hTaken :
      String.ofList
          (Cluster.taken ([movedGlyph] ++ [plainGlyph]) "ab".toList) =
        "ab" := by
    decide +kernel
  rw [hTaken] at hRight
  have hImage : right.mirrored unitFont 10 = left := by
    decide +kernel
  refine ⟨hExact, hUpright, hRight, ?_⟩
  rw [layoutGlyphs_mirrored hExact hUpright, hRight]
  exact congrArg Except.ok hImage

end Reversal

end FixedPage
