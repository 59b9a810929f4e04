import Mathlib.Algebra.Order.Field.Rat
import Mathlib.Algebra.Order.Field.Power
import Mathlib.Tactic.Ring
import Age.Server.Order

/-!
# The order of numerics

`numeric_cmp` orders the values of numerics, and a value has several numerics.  In a database with
the C collation the value is a class and a rational.
-/

namespace Age.Agtype

open Lib

/-- `numeric_cmp` is a total preorder. -/
structure NumericOrder (ops : OrderOps) : Prop where
  neg_iff_pos : ∀ a b, ops.numericCmp a b < 0 ↔ 0 < ops.numericCmp b a
  trans : ∀ a b c, ops.numericCmp a b ≤ 0 → ops.numericCmp b c ≤ 0 → ops.numericCmp a c ≤ 0

namespace NumericOrder

variable {ops : OrderOps} (order : NumericOrder ops)

include order

theorem refl (a : Numeric) : ops.numericCmp a a = 0 := by
  have := order.neg_iff_pos a a
  omega

theorem zero_symm {a b : Numeric} (zero : ops.numericCmp a b = 0) : ops.numericCmp b a = 0 := by
  have := order.neg_iff_pos a b
  have := order.neg_iff_pos b a
  omega

theorem zero_trans {a b c : Numeric} (first : ops.numericCmp a b = 0)
    (second : ops.numericCmp b c = 0) : ops.numericCmp a c = 0 := by
  have := order.trans a b c first.le second.le
  have := order.trans c b a (order.zero_symm second).le (order.zero_symm first).le
  have := order.neg_iff_pos a c
  have := order.neg_iff_pos c a
  omega

end NumericOrder

end Age.Agtype

namespace Age.Server

open Lib Age.Agtype

/-- The value of a numeric of the finite class -/
def numericValue (n : Numeric) : ℚ :=
  (numericParts n).2.1 * 10000 ^ (numericParts n).2.2

theorem mul_pow_scale (mantissa exponent scale : Int) (small : scale ≤ exponent) :
    ((mantissa * 10000 ^ (exponent - scale).toNat : Int) : ℚ) * 10000 ^ scale =
      mantissa * 10000 ^ exponent := by
  have power : (10000 : ℚ) ^ (exponent - scale).toNat * 10000 ^ scale = 10000 ^ exponent := by
    rw [← zpow_natCast, ← zpow_add₀ (by norm_num)]
    congr 1
    omega
  rw [← power]
  push_cast
  ring

theorem compareBy_scaled {x y : Int} {power valueX valueY : ℚ} (positive : 0 < power)
    (isX : x * power = valueX) (isY : y * power = valueY) :
    compareBy x y = compareBy valueX valueY := by
  have less : y < x ↔ valueY < valueX := by
    rw [← isX, ← isY, mul_lt_mul_iff_left₀ positive, Int.cast_lt]
  have equal : x = y ↔ valueX = valueY := by
    rw [← isX, ← isY, mul_left_inj' positive.ne', Int.cast_inj]
  simp only [compareBy, less, equal]

/-- Numerics are compared by their classes, and then by their values. -/
theorem numericCmp_eq (a b : Numeric) :
    numericCmp a b = thenBy (compareBy (numericParts a).1 (numericParts b).1)
      (compareBy (numericValue a) (numericValue b)) :=
  congrArg (thenBy _) (compareBy_scaled (zpow_pos (by norm_num) _)
    (mul_pow_scale (numericParts a).2.1 _ _ (min_le_left (numericParts a).2.2 (numericParts b).2.2))
    (mul_pow_scale (numericParts b).2.1 _ _ (min_le_right _ _)))

theorem numericOrder : NumericOrder orderOps := by
  have keys := ThreeWay.prod (@ThreeWay.compareBy Int _) (@ThreeWay.compareBy ℚ _)
  have compared (a b : Numeric) := numericCmp_eq a b
  constructor
  · intro a b
    change numericCmp a b < 0 ↔ 0 < numericCmp b a
    rw [compared, compared]
    exact keys.neg_iff_pos ((numericParts a).1, numericValue a) ((numericParts b).1, numericValue b)
  · intro a b c first second
    change numericCmp a b ≤ 0 at first
    change numericCmp b c ≤ 0 at second
    change numericCmp a c ≤ 0
    rw [compared] at first second ⊢
    rcases lt_or_eq_of_le first with less | equal
    · rcases lt_or_eq_of_le second with lessLater | equalLater
      · exact (keys.neg_trans ((numericParts a).1, numericValue a)
          ((numericParts b).1, numericValue b) ((numericParts c).1, numericValue c)
          less lessLater).le
      · have same := (keys.eq_zero_iff ((numericParts b).1, numericValue b)
          ((numericParts c).1, numericValue c)).mp equalLater
        obtain ⟨sameClass, sameValue⟩ := Prod.mk.inj same
        rwa [← sameClass, ← sameValue]
    · have same := (keys.eq_zero_iff ((numericParts a).1, numericValue a)
        ((numericParts b).1, numericValue b)).mp equal
      obtain ⟨sameClass, sameValue⟩ := Prod.mk.inj same
      rwa [sameClass, sameValue]

end Age.Server
