import Mathlib.Tactic

set_option autoImplicit false

namespace LittleEndian

def bytes : Nat → Nat → List UInt8
  | 0, _ => []
  | width + 1, n => UInt8.ofNat n :: bytes width (n / 256)

def value : List UInt8 → Nat
  | [] => 0
  | byte :: rest => byte.toNat + 256 * value rest

@[simp] theorem length_bytes (width n : Nat) : (bytes width n).length = width := by
  induction width generalizing n with
  | zero => rfl
  | succ width ih => rw [bytes, List.length_cons, ih]

theorem value_bytes (width n : Nat) : value (bytes width n) = n % 256 ^ width := by
  induction width generalizing n with
  | zero => rw [bytes, value, Nat.pow_zero, Nat.mod_one]
  | succ width ih =>
    have byte : (UInt8.ofNat n).toNat = n % 256 := UInt8.toNat_ofNat'
    rw [bytes, value, ih, byte, Nat.pow_succ, Nat.mul_comm (256 ^ width), Nat.mod_mul]

theorem value_bytes_of_lt (width n : Nat) (small : n < 256 ^ width) :
    value (bytes width n) = n := by
  rw [value_bytes, Nat.mod_eq_of_lt small]

theorem value_lt (bytes : List UInt8) : value bytes < 256 ^ bytes.length := by
  induction bytes with
  | nil => exact Nat.one_pos
  | cons byte rest ih =>
    have low := byte.toNat_lt
    rw [value, List.length_cons, Nat.pow_succ]
    omega

theorem bytes_value (str : List UInt8) : bytes str.length (value str) = str := by
  induction str with
  | nil => rfl
  | cons byte rest ih =>
    have small := byte.toNat_lt
    have low : UInt8.ofNat (byte.toNat + 256 * value rest) = byte := by
      rw [← UInt8.toNat_inj, UInt8.toNat_ofNat']
      omega
    have high : (byte.toNat + 256 * value rest) / 256 = value rest := by omega
    rw [List.length_cons, value, bytes, low, high, ih]

theorem value_append (low high : List UInt8) :
    value (low ++ high) = value low + 256 ^ low.length * value high := by
  induction low with
  | nil => simp [value]
  | cons byte rest ih =>
    rw [List.cons_append, value, value, ih, List.length_cons, Nat.pow_succ]
    ring

theorem value_eq_zero_iff (bytes : List UInt8) : value bytes = 0 ↔ ∀ byte ∈ bytes, byte = 0 := by
  induction bytes with
  | nil => simp [value]
  | cons byte rest ih =>
    have zero : byte.toNat = 0 ↔ byte = 0 := by
      rw [← UInt8.toNat_inj]
      rfl
    rw [List.forall_mem_cons, ← ih, ← zero, value]
    omega

theorem bytes_mod (width n : Nat) : bytes width (n % 256 ^ width) = bytes width n := by
  induction width generalizing n with
  | zero => rfl
  | succ width ih =>
    have low : n % 256 ^ (width + 1) % 256 = n % 256 :=
      Nat.mod_mod_of_dvd n (dvd_pow_self 256 (Nat.succ_ne_zero width))
    have high : n % 256 ^ (width + 1) / 256 = n / 256 % 256 ^ width := by
      rw [Nat.pow_succ, Nat.mul_comm, Nat.mod_mul_right_div_self]
    have byte : UInt8.ofNat (n % 256 ^ (width + 1)) = UInt8.ofNat n := by
      rw [← UInt8.toNat_inj, UInt8.toNat_ofNat', UInt8.toNat_ofNat']
      exact low
    rw [bytes, bytes, byte, high, ih]

theorem bytes_add (low high n : Nat) :
    bytes (low + high) n = bytes low n ++ bytes high (n / 256 ^ low) := by
  induction low generalizing n with
  | zero => simp [bytes]
  | succ low ih =>
    have shift : n / 256 / 256 ^ low = n / 256 ^ (low + 1) := by
      rw [Nat.div_div_eq_div_mul, Nat.pow_succ, Nat.mul_comm]
    rw [show low + 1 + high = low + high + 1 by omega, bytes, bytes, ih, shift]
    rfl

end LittleEndian
