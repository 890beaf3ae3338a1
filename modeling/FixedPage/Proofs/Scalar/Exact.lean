import FixedPage.Scalar
import Mathlib.Algebra.Field.Rat
import Mathlib.Order.Lattice
import Mathlib.Tactic.Ring

/-
  This file states what it means to compute without rounding,
  and that rational numbers do.

  Main declarations:
    * `ExactScalar`
    * `ExactNegation`
    * `Scalar.Exact`
    * `Scalar.ExactOrder`
-/

namespace FixedPage

/-
  Arithmetic without rounding: every scalar has a value, and the
  operations compute with the values.
-/
class ExactScalar
    (α : Type)
    [Scalar α] where
  value : α → ℚ
  value_injective : ∀ x y, value x = value y → x = y
  value_zero : value 0 = 0
  value_one : value 1 = 1
  value_natCast : ∀ n : Nat, value (n : α) = n
  value_add : ∀ x y, value (x + y) = value x + value y
  value_sub : ∀ x y, value (x - y) = value x - value y
  value_mul : ∀ x y, value (x * y) = value x * value y
  value_div : ∀ x y, value (x / y) = value x / value y
  value_ofDecimal :
    ∀ negative (digits : Nat) (exponent : Int),
      value (Scalar.ofDecimal negative digits exponent) =
        (if negative then -(digits : ℚ) else digits) * 10 ^ exponent
  value_beq : ∀ x y, (x == y) = decide (value x = value y)

/- Exact arithmetic in which negation is exact, too. -/
class ExactNegation
    (α : Type)
    [Scalar α] extends
    ExactScalar α where
  value_neg : ∀ x, value (-x) = -value x

attribute [simp]
  ExactNegation.value_neg
  ExactScalar.value_zero ExactScalar.value_one
  ExactScalar.value_natCast ExactScalar.value_add
  ExactScalar.value_sub ExactScalar.value_mul ExactScalar.value_div
  ExactScalar.value_ofDecimal

section Zero

variable {α : Type} [Scalar α]

protected theorem ExactScalar.add_zero
    [ExactScalar α]
    (x : α) : x + 0 = x :=
  value_injective _ _ (by simp)

protected theorem ExactScalar.sub_zero
    [ExactScalar α]
    (x : α) : x - 0 = x :=
  value_injective _ _ (by simp)

protected theorem ExactScalar.mul_zero
    [ExactScalar α]
    (x : α) : x * 0 = 0 :=
  value_injective _ _ (by simp)

protected theorem ExactNegation.neg_zero
    [ExactNegation α] : -(0 : α) = 0 :=
  ExactScalar.value_injective _ _ (by simp)

end Zero

------------------------------------------------------------
-- Values in a field
------------------------------------------------------------

/-
  Exact arithmetic with values in some field, so that lengths may
  be irrational. What lengths and angles are is left open, and so
  is a division by zero.
-/
structure Scalar.Exact
    {α K : Type}
    [Scalar α]
    [Field K]
    (value : α → K) : Prop where
  injective : Function.Injective value
  zero : value 0 = 0
  one : value 1 = 1
  natCast : ∀ n : Nat, value (n : α) = n
  add : ∀ x y, value (x + y) = value x + value y
  sub : ∀ x y, value (x - y) = value x - value y
  mul : ∀ x y, value (x * y) = value x * value y
  div : ∀ x y, y ≠ 0 → value (x / y) = value x / value y
  neg : ∀ x, value (-x) = -value x
  beq : ∀ x y : α, (x == y) = true ↔ x = y

namespace Scalar.Exact

variable {α K : Type} [Scalar α] [Field K] {value : α → K}

/- Only zero has the value zero. -/
theorem value_ne_zero
    (hExact : Exact value)
    {x : α} :
    value x ≠ 0 ↔ x ≠ 0 := by
  rw [← hExact.zero, hExact.injective.ne_iff]

/- Every scalar is finite. -/
theorem isFinite
    (hExact : Exact value)
    (x : α) :
    Scalar.isFinite x = true := by
  rw [Scalar.isFinite, hExact.beq]
  apply hExact.injective
  rw [hExact.sub, hExact.zero, sub_self]

/- A scalar that is not zero does not compare equal to zero. -/
theorem beq_zero
    (hExact : Exact value)
    {x : α}
    (hNonzero : x ≠ 0) :
    (x == 0) = false :=
  eq_false_of_ne_true fun hZero => hNonzero ((hExact.beq x 0).mp hZero)

/- A product is not zero unless a factor is. -/
protected theorem mul_ne_zero
    (hExact : Exact value)
    {x y : α}
    (hLeft : x ≠ 0)
    (hRight : y ≠ 0) :
    x * y ≠ 0 := by
  rw [← hExact.value_ne_zero, hExact.mul]
  exact
    mul_ne_zero (hExact.value_ne_zero.mpr hLeft)
      (hExact.value_ne_zero.mpr hRight)

/- A quotient is not zero unless it is one of zero. -/
protected theorem div_ne_zero
    (hExact : Exact value)
    {x y : α}
    (hLeft : x ≠ 0)
    (hRight : y ≠ 0) :
    x / y ≠ 0 := by
  rw [← hExact.value_ne_zero, hExact.div x y hRight]
  exact
    div_ne_zero (hExact.value_ne_zero.mpr hLeft)
      (hExact.value_ne_zero.mpr hRight)

end Scalar.Exact

/- Exact arithmetic in which scalars compare as their values do. -/
structure Scalar.ExactOrder
    {α K : Type}
    [Scalar α]
    [Field K]
    [LinearOrder K]
    (value : α → K) : Prop
    extends Scalar.Exact value where
  lt : ∀ x y, Scalar.lt x y = true ↔ value x < value y

namespace Scalar.ExactOrder

variable {α K : Type} [Scalar α] [Field K] [LinearOrder K]
variable {value : α → K}

theorem value_min
    (hExact : ExactOrder value)
    (x y : α) :
    value (Scalar.min x y) = Min.min (value x) (value y) := by
  unfold Scalar.min
  by_cases hLess : Scalar.lt y x = true
  · rw [if_pos hLess]
    exact (min_eq_right ((hExact.lt y x).mp hLess).le).symm
  · rw [if_neg hLess, if_pos ((hExact.beq x x).mpr rfl)]
    rw [hExact.lt, not_lt] at hLess
    exact (min_eq_left hLess).symm

theorem value_max
    (hExact : ExactOrder value)
    (x y : α) :
    value (Scalar.max x y) = Max.max (value x) (value y) := by
  unfold Scalar.max
  by_cases hLess : Scalar.lt x y = true
  · rw [if_pos hLess]
    exact (max_eq_right ((hExact.lt x y).mp hLess).le).symm
  · rw [if_neg hLess, if_pos ((hExact.beq x x).mpr rfl)]
    rw [hExact.lt, not_lt] at hLess
    exact (max_eq_left hLess).symm

end Scalar.ExactOrder

/- Exact arithmetic with rational values is exact in a field. -/
theorem ExactNegation.exact
    {α : Type}
    [Scalar α]
    [ExactNegation α] :
    Scalar.Exact (ExactScalar.value : α → ℚ) where
  injective := ExactScalar.value_injective
  zero := ExactScalar.value_zero
  one := ExactScalar.value_one
  natCast := ExactScalar.value_natCast
  add := ExactScalar.value_add
  sub := ExactScalar.value_sub
  mul := ExactScalar.value_mul
  div x y _ := ExactScalar.value_div x y
  neg := ExactNegation.value_neg
  beq x y := by
    rw [ExactScalar.value_beq, decide_eq_true_iff]
    exact ⟨ExactScalar.value_injective x y, congrArg _⟩

/-
  Rational numbers. Lengths and angles, which leave them, are
  only estimated, and only whole numbers are written out.
-/
instance : Scalar ℚ where
  lt x y := decide (x < y)
  hypot x y := x * x + y * y
  sin x := x
  cos _ := 1
  halfPi := 157 / 100
  ofDecimal negative digits exponent :=
    (if negative then -(digits : ℚ) else digits) * 10 ^ exponent
  truncate x := x.floor.toNat
  text x := toString x.num

instance : ExactScalar ℚ where
  value := id
  value_injective _ _ := id
  value_zero := rfl
  value_one := rfl
  value_natCast _ := rfl
  value_add _ _ := rfl
  value_sub _ _ := rfl
  value_mul _ _ := rfl
  value_div _ _ := rfl
  value_ofDecimal _ _ _ := rfl
  value_beq _ _ := rfl

instance : ExactNegation ℚ where
  value_neg _ := rfl

end FixedPage
