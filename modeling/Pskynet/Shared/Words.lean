import Mathlib.Data.Nat.Bitwise
import Mathlib.Tactic

set_option autoImplicit false

namespace Words

theorem or_mask_eq_iff (k a b : Nat) :
    a ||| (2 ^ k - 1) = b ||| (2 ^ k - 1) ↔ a / 2 ^ k = b / 2 ^ k := by
  -- Both sides say that `a` and `b` agree on every bit from `k` on.
  constructor
  · intro same
    apply Nat.eq_of_testBit_eq
    intro i
    have bit := congrArg (fun n => n.testBit (i + k)) same
    have high : ¬i + k < k := by omega
    simpa [Nat.testBit_two_pow_sub_one, Nat.testBit_div_two_pow, high] using bit
  · intro same
    apply Nat.eq_of_testBit_eq
    intro i
    by_cases low : i < k
    · simp [low]
    · have bit := congrArg (fun n => n.testBit (i - k)) same
      simp only [Nat.testBit_div_two_pow, Nat.sub_add_cancel (Nat.not_lt.mp low)] at bit
      simp [bit]

theorem or_mask_eq_iff_uint32 (k : Nat) (a b mask : UInt32) (same : mask.toNat = 2 ^ k - 1) :
    a ||| mask = b ||| mask ↔ a.toNat / 2 ^ k = b.toNat / 2 ^ k := by
  rw [← UInt32.toNat_inj, UInt32.toNat_or, UInt32.toNat_or, same, or_mask_eq_iff]

theorem toNat_and_mask (k : Nat) (a mask : UInt32) (same : mask.toNat = 2 ^ k - 1) :
    (a &&& mask).toNat = a.toNat % 2 ^ k := by
  rw [UInt32.toNat_and, same, Nat.and_two_pow_sub_one_eq_mod]

theorem or_and_right (a b mask : UInt32) :
    (a ||| b) &&& mask = (a &&& mask) ||| (b &&& mask) := by
  rw [← UInt32.toNat_inj, UInt32.toNat_and, UInt32.toNat_or, Nat.and_or_distrib_right,
    UInt32.toNat_or, UInt32.toNat_and, UInt32.toNat_and]

theorem toNat_or_disjoint (k : Nat) (a b : UInt32) (high : 2 ^ k ∣ a.toNat)
    (low : b.toNat < 2 ^ k) : (a ||| b).toNat = a.toNat + b.toNat := by
  obtain ⟨c, same⟩ := high
  rw [UInt32.toNat_or, same, Nat.two_pow_add_eq_or_of_lt low]

theorem toNat_or_disjoint_uint64 (k : Nat) (a b : UInt64) (high : 2 ^ k ∣ a.toNat)
    (low : b.toNat < 2 ^ k) : (b ||| a).toNat = b.toNat + a.toNat := by
  obtain ⟨c, same⟩ := high
  rw [UInt64.toNat_or, Nat.or_comm, same, ← Nat.two_pow_add_eq_or_of_lt low, Nat.add_comm]

theorem toNat_join (low high : UInt32) :
    (low.toUInt64 ||| high.toUInt64 <<< 32).toNat = low.toNat + 2 ^ 32 * high.toNat := by
  have below := low.toNat_lt
  have above := high.toNat_lt
  have shifted : (high.toUInt64 <<< 32).toNat = high.toNat * 2 ^ 32 := by
    rw [UInt64.toNat_shiftLeft, UInt32.toNat_toUInt64, Nat.shiftLeft_eq]
    exact Nat.mod_eq_of_lt (by change _ * 2 ^ 32 < 2 ^ 64; omega)
  rw [toNat_or_disjoint_uint64 32 _ _ ⟨_, shifted.trans (Nat.mul_comm _ _)⟩
    (by rw [UInt32.toNat_toUInt64]; exact below), UInt32.toNat_toUInt64, shifted, Nat.mul_comm]

theorem toNat_shiftLeft_lt (a k : UInt32) (small : k.toNat < 32) :
    (a <<< k).toNat = a.toNat * 2 ^ k.toNat % 2 ^ 32 := by
  rw [UInt32.toNat_shiftLeft, Nat.mod_eq_of_lt small, Nat.shiftLeft_eq]

theorem toNat_shiftLeft_byte (a : UInt8) (k : UInt32) (small : k.toNat ≤ 24) :
    (a.toUInt32 <<< k).toNat = a.toNat * 2 ^ k.toNat := by
  have bound := a.toNat_lt
  have fits : a.toNat * 2 ^ k.toNat < 2 ^ 32 :=
    calc a.toNat * 2 ^ k.toNat ≤ 255 * 2 ^ 24 := by gcongr <;> omega
      _ < 2 ^ 32 := by decide
  rw [toNat_shiftLeft_lt _ _ (by omega), UInt8.toNat_toUInt32, Nat.mod_eq_of_lt fits]

theorem toNat_four_bytes (a b c d : UInt8) :
    (a.toUInt32 <<< 24 ||| b.toUInt32 <<< 16 ||| c.toUInt32 <<< 8 ||| d.toUInt32).toNat =
      a.toNat * 2 ^ 24 + b.toNat * 2 ^ 16 + c.toNat * 2 ^ 8 + d.toNat := by
  have boundB := b.toNat_lt
  have boundC := c.toNat_lt
  have boundD := d.toNat_lt
  have first : (a.toUInt32 <<< 24).toNat = a.toNat * 2 ^ 24 := toNat_shiftLeft_byte a 24 (by decide)
  have second : (b.toUInt32 <<< 16).toNat = b.toNat * 2 ^ 16 :=
    toNat_shiftLeft_byte b 16 (by decide)
  have third : (c.toUInt32 <<< 8).toNat = c.toNat * 2 ^ 8 := toNat_shiftLeft_byte c 8 (by decide)
  have fourth : d.toUInt32.toNat = d.toNat := UInt8.toNat_toUInt32 d
  have two := toNat_or_disjoint 24 (a.toUInt32 <<< 24) (b.toUInt32 <<< 16) (by omega) (by omega)
  have three := toNat_or_disjoint 16 (a.toUInt32 <<< 24 ||| b.toUInt32 <<< 16)
    (c.toUInt32 <<< 8) (by omega) (by omega)
  rw [toNat_or_disjoint 8 _ _ (by omega) (by omega), three, two, first, second, third, fourth]

theorem toNat_shiftRight_lt (a b : UInt32) (small : b.toNat < 32) :
    (a >>> b).toNat = a.toNat / 2 ^ b.toNat := by
  rw [UInt32.toNat_shiftRight, Nat.mod_eq_of_lt small, Nat.shiftRight_eq_div_pow]

theorem toNat_low_half (v : Int64) : v.toInt32.toUInt32.toNat = v.toUInt64.toNat % 2 ^ 32 := by
  change (v.toBitVec.signExtend 32).toNat = v.toBitVec.toNat % 2 ^ 32
  rw [BitVec.signExtend_eq_setWidth_of_le _ (by decide), BitVec.toNat_setWidth]

theorem toNat_of_nonneg (v : Int64) (nonneg : 0 ≤ v.toInt) :
    (v.toUInt64.toNat : Int) = v.toInt := by
  have value : v.toInt = _ := v.toBitVec.toInt_eq_toNat_cond
  have bound := v.toBitVec.isLt
  change ((v.toBitVec.toNat : Nat) : Int) = _
  split_ifs at value <;> omega

theorem toNat_of_neg (v : Int64) (negative : v.toInt < 0) :
    (v.toUInt64.toNat : Int) = v.toInt + 2 ^ 64 := by
  have value : v.toInt = _ := v.toBitVec.toInt_eq_toNat_cond
  have bound := v.toBitVec.isLt
  change ((v.toBitVec.toNat : Nat) : Int) = _
  split_ifs at value <;> omega

theorem toInt_shiftRight_31 (v : Int64) : (v >>> 31).toInt = v.toInt / 2 ^ 31 := by
  have shift : (31 : Int64).toBitVec.smod 64 = 31#64 := by decide
  rw [← Int64.toInt_toBitVec, Int64.toBitVec_shiftRight, shift]
  change (v.toBitVec.sshiftRight 31).toInt = _
  rw [BitVec.toInt_sshiftRight, Int.shiftRight_eq_div_pow]
  rfl

theorem and_sign_eq_zero_iff (v : UInt32) : v &&& 0x80000000 = 0 ↔ v.toNat < 2 ^ 31 := by
  have bound := v.toNat_lt
  have bit : v.toNat.testBit 31 = decide (v.toNat / 2 ^ 31 % 2 = 1) :=
    Nat.testBit_eq_decide_div_mod_eq
  rw [← UInt32.toNat_inj, UInt32.toNat_and]
  change v.toNat &&& 2 ^ 31 = 0 ↔ _
  rw [Nat.and_two_pow, bit]
  by_cases high : v.toNat / 2 ^ 31 % 2 = 1
  · simp
    omega
  · simp
    omega

theorem ofNat_toNat (v : Int64) : Int64.ofNat v.toUInt64.toNat = v := by
  apply Int64.toBitVec.inj
  change BitVec.ofNat 64 v.toBitVec.toNat = v.toBitVec
  rw [BitVec.ofNat_toNat, BitVec.setWidth_eq]

theorem toNat_lt_of_lt (v bound : Int64) (nonneg : ¬v < 0) (small : v < bound) :
    (v.toUInt64.toNat : Int) < bound.toInt := by
  rw [Int64.lt_iff_toInt_lt] at nonneg small
  rw [toNat_of_nonneg v (not_lt.mp nonneg)]
  exact small

theorem toInt_of_narrow (v : Int64) (narrow : v = v.toInt32.toInt64) :
    -2 ^ 31 ≤ v.toInt ∧ v.toInt < 2 ^ 31 := by
  rw [narrow, Int32.toInt_toInt64]
  exact ⟨Int32.le_toInt _, Int32.toInt_lt _⟩

theorem counter_succ (n : Nat) : Int32.ofNat n + 1 = Int32.ofNat (n + 1) :=
  (Int32.ofNat_add n 1).symm

theorem counter_pred (n : Nat) : Int32.ofNat (n + 1) - 1 = Int32.ofNat n := by
  rw [← counter_succ, Int32.add_sub_cancel]

theorem counter_zero_iff (n : Nat) (small : n < 2 ^ 31) : Int32.ofNat n = 0 ↔ n = 0 := by
  rw [← Int32.toInt_inj, Int32.toInt_ofNat_of_lt small, Int32.toInt_zero]
  omega

theorem counter_inj (n k : Nat) (small : n < 2 ^ 31) (other : k < 2 ^ 31)
    (same : Int32.ofNat n = Int32.ofNat k) : n = k := by
  have values := congrArg Int32.toInt same
  rw [Int32.toInt_ofNat_of_lt small, Int32.toInt_ofNat_of_lt other] at values
  exact Int.ofNat.inj values

theorem counter_pos_iff (n : Nat) (small : n < 2 ^ 31) : 0 < Int32.ofNat n ↔ 0 < n := by
  rw [Int32.lt_iff_toInt_lt, Int32.toInt_ofNat_of_lt small, Int32.toInt_zero]
  omega

theorem counter_lt (n : Nat) (bound : n ≤ 2 ^ 31) (pos : 0 < Int32.ofNat n) : n < 2 ^ 31 := by
  by_contra high
  have top : n = 2 ^ 31 := by omega
  rw [top] at pos
  exact absurd pos (by decide)

end Words
