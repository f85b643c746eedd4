import Mathlib.Tactic

set_option autoImplicit false

namespace CInt

-- What the conversion to an `int` keeps of a number.
def toInt (n : Int) : Int := Int.bmod n (2 ^ 32)

-- The result of `int` arithmetic, which is undefined if it does not fit. `-[k+1]` is `-(k + 1)`.
def arith : Int → Option Int
  | .ofNat k => if k < 2 ^ 31 then some (.ofNat k) else none
  | .negSucc k => if k < 2 ^ 31 then some (.negSucc k) else none

theorem toInt_eq {n : Int} (low : -2 ^ 31 ≤ n) (high : n < 2 ^ 31) : toInt n = n :=
  Int.bmod_eq_of_le (by omega) (by omega)

theorem toInt_range (n : Int) : -2 ^ 31 ≤ toInt n ∧ toInt n < 2 ^ 31 := by
  have low := Int.le_bmod (x := n) (m := 2 ^ 32) (by omega)
  have high := Int.bmod_lt (x := n) (m := 2 ^ 32) (by omega)
  simp only [toInt]
  omega

theorem toInt_congr {n m : Int} (same : n % 2 ^ 32 = m % 2 ^ 32) : toInt n = toInt m := by
  have left : (n % (2 ^ 32 : Nat)).bmod (2 ^ 32) = n.bmod (2 ^ 32) := Int.emod_bmod ..
  have right : (m % (2 ^ 32 : Nat)).bmod (2 ^ 32) = m.bmod (2 ^ 32) := Int.emod_bmod ..
  rw [toInt, toInt, ← left, ← right]
  exact congrArg (Int.bmod · (2 ^ 32)) same

theorem arith_eq {n : Int} (low : -2 ^ 31 ≤ n) (high : n < 2 ^ 31) : arith n = some n := by
  cases n with
  | ofNat k => exact if_pos (by simp only [Int.ofNat_eq_natCast] at high; omega)
  | negSucc k => exact if_pos (by simp only [Int.negSucc_eq] at low; omega)

theorem arith_some {n m : Int} (done : arith n = some m) : n = m ∧ -2 ^ 31 ≤ m ∧ m < 2 ^ 31 := by
  cases n with
  | ofNat k =>
    obtain ⟨within, same⟩ := Option.ite_none_right_eq_some.mp done
    obtain rfl := Option.some.inj same
    exact ⟨rfl, by simp only [Int.ofNat_eq_natCast]; omega⟩
  | negSucc k =>
    obtain ⟨within, same⟩ := Option.ite_none_right_eq_some.mp done
    obtain rfl := Option.some.inj same
    exact ⟨rfl, by simp only [Int.negSucc_eq]; omega⟩

theorem arith_none {n : Int} (large : 2 ^ 31 ≤ n) : arith n = none := by
  cases n with
  | ofNat k => exact if_neg (by simp only [Int.ofNat_eq_natCast] at large; omega)
  | negSucc k => simp only [Int.negSucc_eq] at large; omega

end CInt
