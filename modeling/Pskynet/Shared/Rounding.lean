import Mathlib.Tactic
import Mathlib.Data.Int.Log

set_option autoImplicit false

namespace Rounding

-- The nearest integer, and the even one of two that are as near
def nearest (x : ℚ) : ℤ :=
  if x - ⌊x⌋ < 1 / 2 then ⌊x⌋
  else if 1 / 2 < x - ⌊x⌋ then ⌊x⌋ + 1
  else if ⌊x⌋ % 2 = 0 then ⌊x⌋ else ⌊x⌋ + 1

-- The distance between two numbers of so many significant bits where `x` is
def ulp (precision : ℕ) (x : ℚ) : ℚ := 2 ^ (Int.log 2 |x| - precision + 1)

def toPrecision (precision : ℕ) (x : ℚ) : ℚ := nearest (x / ulp precision x) * ulp precision x

theorem nearest_intCast (n : ℤ) : nearest n = n := by
  rw [nearest, Int.floor_intCast, sub_self, if_pos (by norm_num)]

theorem abs_nearest_sub (x : ℚ) : |(nearest x : ℚ) - x| ≤ 1 / 2 := by
  have low := Int.floor_le x
  have high := Int.lt_floor_add_one x
  rw [abs_le]
  unfold nearest
  split_ifs with below above even
  · constructor <;> linarith
  · push_cast
    constructor <;> linarith
  · constructor <;> linarith
  · push_cast
    constructor <;> linarith

theorem nearest_mono {x y : ℚ} (less : x ≤ y) : nearest x ≤ nearest y := by
  rcases (Int.floor_le_floor less).lt_or_eq with apart | same
  · have left : nearest x ≤ ⌊x⌋ + 1 := by
      unfold nearest
      split_ifs <;> omega
    have right : ⌊y⌋ ≤ nearest y := by
      unfold nearest
      split_ifs <;> omega
    omega
  · unfold nearest
    rw [same]
    split_ifs with first second third fourth fifth sixth seventh eighth ninth <;>
      first
        | omega
        | (exfalso; linarith)

theorem ulp_pos (precision : ℕ) (x : ℚ) : 0 < ulp precision x := by
  unfold ulp
  positivity

theorem ulp_of_nonneg {precision : ℕ} {x : ℚ} (nonneg : 0 ≤ x) :
    ulp precision x = 2 ^ (Int.log 2 x - precision + 1) := by
  rw [ulp, abs_of_nonneg nonneg]

theorem toPrecision_zero (precision : ℕ) : toPrecision precision 0 = 0 := by
  rw [toPrecision, zero_div]
  have none_ := nearest_intCast 0
  rw [Int.cast_zero] at none_
  rw [none_, Int.cast_zero, zero_mul]

theorem toPrecision_nonneg {precision : ℕ} {x : ℚ} (nonneg : 0 ≤ x) : 0 ≤ toPrecision precision x := by
  have positive := ulp_pos precision x
  have least := nearest_mono (div_nonneg nonneg positive.le)
  have none_ := nearest_intCast 0
  rw [Int.cast_zero] at none_
  rw [none_] at least
  exact mul_nonneg (Int.cast_nonneg least) positive.le

-- `2 ^ k` units are `2 ^ (k + 1 - precision)` times the power of two below `x`.
theorem power_units {precision : ℕ} {x : ℚ} (nonneg : 0 ≤ x) (k : ℕ) :
    (2 : ℚ) ^ (Int.log 2 x + 1 + k - precision) = ((2 ^ k : ℤ) : ℚ) * ulp precision x := by
  rw [ulp_of_nonneg nonneg, Int.cast_pow, Int.cast_ofNat, ← zpow_natCast, ← zpow_add₀ (by norm_num)]
  congr 1
  ring

theorem toPrecision_le_next {precision : ℕ} {x : ℚ} (positive : 0 < x) :
    toPrecision precision x ≤ 2 ^ (Int.log 2 x + 1) := by
  have unit := ulp_pos precision x
  have power : (2 : ℚ) ^ (Int.log 2 x + 1) = ((2 ^ precision : ℤ) : ℚ) * ulp precision x := by
    rw [← power_units positive.le, add_sub_cancel_right]
  have below : x / ulp precision x ≤ ((2 ^ precision : ℤ) : ℚ) := by
    rw [div_le_iff₀ unit, ← power]
    exact (Int.lt_zpow_succ_log_self one_lt_two x).le
  have rounded := nearest_mono below
  rw [nearest_intCast] at rounded
  rw [power, toPrecision]
  exact mul_le_mul_of_nonneg_right (Int.cast_le.mpr rounded) unit.le

theorem power_le_toPrecision {precision : ℕ} (bits : 0 < precision) {x : ℚ} (positive : 0 < x) :
    2 ^ Int.log 2 x ≤ toPrecision precision x := by
  have unit := ulp_pos precision x
  have power : (2 : ℚ) ^ Int.log 2 x = ((2 ^ (precision - 1) : ℤ) : ℚ) * ulp precision x := by
    rw [← power_units positive.le]
    congr 1
    omega
  have above : ((2 ^ (precision - 1) : ℤ) : ℚ) ≤ x / ulp precision x := by
    rw [le_div_iff₀ unit, ← power]
    exact Int.zpow_log_le_self one_lt_two positive
  have rounded := nearest_mono above
  rw [nearest_intCast] at rounded
  rw [power, toPrecision]
  exact mul_le_mul_of_nonneg_right (Int.cast_le.mpr rounded) unit.le

theorem toPrecision_mono {precision : ℕ} (bits : 0 < precision) {x y : ℚ} (nonneg : 0 ≤ x)
    (less : x ≤ y) : toPrecision precision x ≤ toPrecision precision y := by
  rcases nonneg.eq_or_lt with rfl | positive
  · rw [toPrecision_zero]
    exact toPrecision_nonneg less
  have later := positive.trans_le less
  rcases (Int.log_mono_right (b := 2) positive less).lt_or_eq with apart | same
  · calc toPrecision precision x ≤ 2 ^ (Int.log 2 x + 1) := toPrecision_le_next positive
      _ ≤ 2 ^ Int.log 2 y := zpow_le_zpow_right₀ one_le_two apart
      _ ≤ toPrecision precision y := power_le_toPrecision bits later
  · have unit := ulp_pos precision y
    have units : ulp precision x = ulp precision y := by
      rw [ulp_of_nonneg nonneg, ulp_of_nonneg later.le, same]
    rw [toPrecision, toPrecision, units]
    refine mul_le_mul_of_nonneg_right (Int.cast_le.mpr (nearest_mono ?_)) unit.le
    exact div_le_div_of_nonneg_right less unit.le

def part (precision : ℕ) : ℚ := 2 ^ (-precision : ℤ)

theorem part_nonneg (precision : ℕ) : 0 ≤ part precision := by
  unfold part
  positivity

theorem part_le_one (precision : ℕ) : part precision ≤ 1 :=
  zpow_le_one_of_nonpos₀ one_le_two (by omega)

theorem abs_toPrecision_sub {precision : ℕ} {x : ℚ} (nonneg : 0 ≤ x) :
    |toPrecision precision x - x| ≤ x * part precision := by
  rcases nonneg.eq_or_lt with rfl | positive
  · rw [toPrecision_zero, sub_self, abs_zero, zero_mul]
  have unit := ulp_pos precision x
  have half : ulp precision x / 2 = 2 ^ Int.log 2 x * part precision := by
    rw [ulp_of_nonneg nonneg, zpow_add₀ (by norm_num), zpow_one, mul_div_assoc, div_self (by norm_num),
      mul_one, sub_eq_add_neg, zpow_add₀ (by norm_num), part]
  have split : toPrecision precision x - x =
      (nearest (x / ulp precision x) - x / ulp precision x) * ulp precision x := by
    rw [sub_mul, div_mul_cancel₀ _ unit.ne', toPrecision]
  calc |toPrecision precision x - x|
      = |(nearest (x / ulp precision x) : ℚ) - x / ulp precision x| * ulp precision x := by
        rw [split, abs_mul, abs_of_pos unit]
    _ ≤ 1 / 2 * ulp precision x := mul_le_mul_of_nonneg_right (abs_nearest_sub _) unit.le
    _ = 2 ^ Int.log 2 x * part precision := by rw [← half]; ring
    _ ≤ x * part precision :=
        mul_le_mul_of_nonneg_right (Int.zpow_log_le_self one_lt_two positive) (part_nonneg precision)

theorem toPrecision_le {precision : ℕ} {x : ℚ} (nonneg : 0 ≤ x) :
    toPrecision precision x ≤ x * (1 + part precision) := by
  have near := (abs_le.mp (abs_toPrecision_sub nonneg : |toPrecision precision x - x| ≤ _)).2
  linarith

theorem le_toPrecision {precision : ℕ} {x : ℚ} (nonneg : 0 ≤ x) :
    x * (1 - part precision) ≤ toPrecision precision x := by
  have near := (abs_le.mp (abs_toPrecision_sub nonneg : |toPrecision precision x - x| ≤ _)).1
  linarith

end Rounding
