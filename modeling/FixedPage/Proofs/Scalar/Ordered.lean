import FixedPage.Scalar
import Mathlib.Algebra.Order.Field.Rat
import Mathlib.Tactic.Positivity
import Mathlib.Tactic.NormNum

/-
  This file states how scalars compare when some of them are not
  numbers, as machine numbers do, and what is moved into the range
  from zero to one then. Rational numbers with infinities and a
  scalar that is not a number compare like that.

  Main declarations:
    * `Scalar.IsNumber`
    * `Scalar.InUnit`
    * `OrderedScalar`
    * `Scalar.clampUnit_inUnit`
    * `Extended`
-/

namespace FixedPage

------------------------------------------------------------
-- Numbers
------------------------------------------------------------

namespace Scalar

variable {α : Type} [Scalar α]

/- A scalar is a number when it is equal to itself. -/
def IsNumber
    (x : α) : Prop :=
  (x == x) = true

/- A scalar is a number from zero to one. -/
def InUnit
    (x : α) : Prop :=
  le 0 x = true ∧ le x 1 = true

end Scalar

/-
  Scalars of which only numbers compare. Products and the channels
  of colors may be rounded, but stay in the range from zero to one.
-/
class OrderedScalar
    (α : Type)
    [Scalar α] : Prop where
  number_of_lt :
    ∀ x y : α,
      Scalar.lt x y = true → Scalar.IsNumber x ∧ Scalar.IsNumber y
  number_of_beq :
    ∀ x y : α,
      (x == y) = true → Scalar.IsNumber x ∧ Scalar.IsNumber y
  trichotomy :
    ∀ x y : α,
      Scalar.IsNumber x →
        Scalar.IsNumber y →
          Scalar.lt x y = true ∨ (x == y) = true ∨
            Scalar.lt y x = true
  zero_lt_one : Scalar.lt (0 : α) 1 = true
  number_ofNumeral :
    ∀ n,
      Scalar.IsNumber (Scalar.ofNumeral n : α) ↔ n ≠ .notANumber
  number_of_mul :
    ∀ x y : α, Scalar.IsNumber (x * y) → Scalar.IsNumber x
  inUnit_mul :
    ∀ x y : α,
      Scalar.InUnit x → Scalar.InUnit y → Scalar.InUnit (x * y)
  inUnit_channel :
    ∀ n : Nat,
      n ≤ 255 → Scalar.InUnit (Nat.cast n / Nat.cast 255 : α)

namespace Scalar

variable {α : Type} [Scalar α] [OrderedScalar α] {x y : α}

/- Zero and one are numbers. -/
theorem isNumber_zero_one :
    IsNumber (0 : α) ∧ IsNumber (1 : α) :=
  OrderedScalar.number_of_lt _ _ OrderedScalar.zero_lt_one

/- What is at most something else is a number, and so is that. -/
theorem isNumber_of_le
    (hLe : le x y = true) :
    IsNumber x ∧ IsNumber y := by
  unfold le at hLe
  rw [Bool.or_eq_true] at hLe
  rcases hLe with hLt | hSame
  · exact OrderedScalar.number_of_lt x y hLt
  · exact OrderedScalar.number_of_beq x y hSame

theorem InUnit.isNumber
    (hUnit : InUnit x) :
    IsNumber x :=
  (isNumber_of_le hUnit.1).2

/- A number is at most another one unless it is greater. -/
theorem le_of_not_lt
    (hLeft : IsNumber x)
    (hRight : IsNumber y)
    (hNot : lt y x ≠ true) :
    le x y = true := by
  unfold le
  rw [Bool.or_eq_true]
  rcases OrderedScalar.trichotomy x y hLeft hRight with
    hLt | hSame | hGreater
  · exact .inl hLt
  · exact .inr hSame
  · exact absurd hGreater hNot

omit [OrderedScalar α] in
theorem le_of_lt
    (hLt : lt x y = true) :
    le x y = true := by
  unfold le
  rw [hLt, Bool.true_or]

omit [OrderedScalar α] in
theorem le_refl
    (hNumber : IsNumber x) :
    le x x = true := by
  unfold le
  rw [Bool.or_eq_true]
  exact .inr hNumber

theorem inUnit_zero : InUnit (0 : α) :=
  ⟨le_refl isNumber_zero_one.1, le_of_lt OrderedScalar.zero_lt_one⟩

theorem inUnit_one : InUnit (1 : α) :=
  ⟨le_of_lt OrderedScalar.zero_lt_one, le_refl isNumber_zero_one.2⟩

/-
  Numbers are moved into the range from zero to one, and nothing
  else is.
-/
theorem clampUnit_inUnit :
    InUnit (clampUnit x) ↔ IsNumber x := by
  unfold clampUnit
  by_cases hBelow : lt x 0 = true
  · rw [if_pos hBelow]
    exact
      iff_of_true inUnit_zero
        (OrderedScalar.number_of_lt x 0 hBelow).1
  · rw [if_neg hBelow]
    by_cases hAbove : lt 1 x = true
    · rw [if_pos hAbove]
      exact
        iff_of_true inUnit_one
          (OrderedScalar.number_of_lt 1 x hAbove).2
    · rw [if_neg hAbove]
      constructor
      · exact InUnit.isNumber
      · intro hNumber
        exact
          ⟨le_of_not_lt isNumber_zero_one.1 hNumber hBelow,
            le_of_not_lt hNumber isNumber_zero_one.2 hAbove⟩

/- What has been clamped is in range unless it is no number. -/
theorem inUnit_of_clampUnit
    (hNumber : IsNumber (clampUnit x)) :
    InUnit (clampUnit x) := by
  by_cases hIs : IsNumber x
  · exact clampUnit_inUnit.mpr hIs
  · have hBelow : ¬ lt x 0 = true := fun hLt =>
      hIs (OrderedScalar.number_of_lt x 0 hLt).1
    have hAbove : ¬ lt 1 x = true := fun hLt =>
      hIs (OrderedScalar.number_of_lt 1 x hLt).2
    unfold clampUnit at hNumber
    rw [if_neg hBelow, if_neg hAbove] at hNumber
    exact absurd hNumber hIs

end Scalar

------------------------------------------------------------
-- Extended rational numbers
------------------------------------------------------------

/- Rational numbers, two infinities, and one that is no number. -/
inductive Extended where
  | finite
      (value : ℚ)
  | infinite
      (negative : Bool)
  | notANumber
deriving DecidableEq, Repr

namespace Extended

/- The other number of the same size. -/
def neg : Extended → Extended
| finite x => finite (-x)
| infinite negative => infinite !negative
| notANumber => notANumber

/- Infinities of both kinds have no sum. -/
def add : Extended → Extended → Extended
| finite x, finite y => finite (x + y)
| finite _, infinite negative => infinite negative
| infinite negative, finite _ => infinite negative
| infinite negative, infinite negative' =>
    if negative = negative' then infinite negative else notANumber
| _, _ => notANumber

/- An infinity times zero is no number. -/
def mul : Extended → Extended → Extended
| finite x, finite y => finite (x * y)
| finite x, infinite negative
| infinite negative, finite x =>
    if x = 0 then notANumber
    else infinite (negative != decide (x < 0))
| infinite negative, infinite negative' =>
    infinite (negative != negative')
| _, _ => notANumber

/- A number divided by zero is infinite, unless it is zero. -/
def div : Extended → Extended → Extended
| finite x, finite y =>
    if y = 0 then
      if x = 0 then notANumber else infinite (decide (x < 0))
    else finite (x / y)
| finite _, infinite _ => finite 0
| infinite negative, finite y =>
    infinite (negative != decide (y < 0))
| _, _ => notANumber

/- Equality of numbers. -/
def equal : Extended → Extended → Bool
| finite x, finite y => decide (x = y)
| infinite negative, infinite negative' => negative == negative'
| _, _ => false

/- Order of numbers. -/
def less : Extended → Extended → Bool
| finite x, finite y => decide (x < y)
| finite _, infinite negative => !negative
| infinite negative, finite _ => negative
| infinite negative, infinite negative' => negative && !negative'
| _, _ => false

end Extended

/-
  Lengths and angles are only estimated, and only the numerators
  of finite numbers are written out.
-/
instance : Scalar Extended where
  zero := .finite 0
  one := .finite 1
  add := .add
  sub x y := x.add y.neg
  mul := .mul
  div := .div
  neg := .neg
  natCast n := .finite n
  beq := Extended.equal
  lt := Extended.less
  hypot x y := (x.mul x).add (y.mul y)
  sin x := x
  cos _ := .finite 1
  halfPi := .finite (157 / 100)
  ofDecimal negative digits exponent :=
    .finite
      ((if negative then -(digits : ℚ) else digits) * 10 ^ exponent)
  truncate
    | .finite x => x.floor.toNat
    | _ => 0
  text
    | .finite x => toString x.num
    | .infinite _ => "inf"
    | .notANumber => "NaN"

namespace Extended

/- Everything but one scalar is a number. -/
theorem isNumber_iff
    {x : Extended} :
    Scalar.IsNumber x ↔ x ≠ notANumber := by
  change equal x x = true ↔ _
  cases x <;> simp [equal]

/- The range from zero to one holds finite numbers. -/
theorem inUnit_iff
    {x : Extended} :
    Scalar.InUnit x ↔ ∃ q, x = finite q ∧ 0 ≤ q ∧ q ≤ 1 := by
  change
    (less (finite 0) x || equal (finite 0) x) = true ∧
        (less x (finite 1) || equal x (finite 1)) = true ↔
      _
  cases x with
  | finite q => simp [less, equal, le_iff_lt_or_eq]
  | infinite negative => cases negative <;> simp [less, equal]
  | notANumber => simp [less, equal]

instance : OrderedScalar Extended where
  number_of_lt x y hLt := by
    change less x y = true at hLt
    rw [isNumber_iff, isNumber_iff]
    cases x <;> cases y <;> simp [less] at hLt ⊢
  number_of_beq x y hSame := by
    change equal x y = true at hSame
    rw [isNumber_iff, isNumber_iff]
    cases x <;> cases y <;> simp [equal] at hSame ⊢
  trichotomy x y hLeft hRight := by
    rw [isNumber_iff] at hLeft hRight
    change less x y = true ∨ equal x y = true ∨ less y x = true
    cases x with
    | finite p =>
        cases y with
        | finite q => simpa [less, equal] using lt_trichotomy p q
        | infinite negative => cases negative <;> simp [less]
        | notANumber => exact absurd rfl hRight
    | infinite negative =>
        cases y with
        | finite q => cases negative <;> simp [less]
        | infinite negative' =>
            cases negative <;> cases negative' <;> simp [less, equal]
        | notANumber => exact absurd rfl hRight
    | notANumber => exact absurd rfl hLeft
  zero_lt_one := by decide
  number_ofNumeral n := by
    rw [isNumber_iff]
    cases n with
    | decimal negative digits exponent =>
        refine iff_of_true ?_ nofun
        exact nofun
    | infinite negative => cases negative <;> decide
    | notANumber => decide
  number_of_mul x y hNumber := by
    rw [isNumber_iff] at hNumber ⊢
    rintro rfl
    exact hNumber rfl
  inUnit_mul x y hLeft hRight := by
    rw [inUnit_iff] at hLeft hRight ⊢
    rcases hLeft with ⟨p, rfl, hLow, hHigh⟩
    rcases hRight with ⟨q, rfl, hLow', hHigh'⟩
    exact
      ⟨p * q, rfl, mul_nonneg hLow hLow',
        mul_le_one₀ hHigh hLow' hHigh'⟩
  inUnit_channel n hSmall := by
    rw [inUnit_iff]
    have hHigh : (n : ℚ) ≤ 255 := by exact_mod_cast hSmall
    refine ⟨n / 255, ?_, by positivity, ?_⟩
    · change div (finite n) (finite 255) = finite (n / 255)
      rw [div, if_neg (by norm_num)]
    · rw [div_le_one (by norm_num)]
      exact hHigh

end Extended

end FixedPage
