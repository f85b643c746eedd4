import Mathlib.Tactic

set_option autoImplicit false

namespace Numeral

def digits (base n : Nat) : List UInt8 := (Nat.toDigits base n).map fun c => UInt8.ofNat c.toNat

def digit (c : UInt8) : Option Nat :=
  if 48 ≤ c ∧ c ≤ 57 then some (c.toNat - 48)
  else if 97 ≤ c ∧ c ≤ 122 then some (c.toNat - 87)
  else if 65 ≤ c ∧ c ≤ 90 then some (c.toNat - 55)
  else none

def isDigit (base : Nat) (c : UInt8) : Bool := (digit c).any (· < base)

def scan (base : Nat) : Nat → List UInt8 → Nat × List UInt8
  | n, [] => (n, [])
  | n, c :: rest =>
    match digit c with
    | some d => if d < base then scan base (base * n + d) rest else (n, c :: rest)
    | none => (n, c :: rest)

section

variable {base : Nat}

theorem digit_digitChar {d : Nat} (small : d < 16) :
    digit (UInt8.ofNat (Nat.digitChar d).toNat) = some d := by
  revert d
  decide

theorem digits_of_lt {n : Nat} (less : n < base) :
    digits base n = [UInt8.ofNat (Nat.digitChar n).toNat] := by
  rw [digits, Nat.toDigits_of_lt_base less, List.map_singleton]

theorem digits_of_le {n : Nat} (many : 1 < base) (more : base ≤ n) :
    digits base n = digits base (n / base) ++ [UInt8.ofNat (Nat.digitChar (n % base)).toNat] := by
  rw [digits, Nat.toDigits_of_base_le many more, List.map_append, List.map_singleton]
  rfl

theorem scan_digit {n d : Nat} {c : UInt8} (is : digit c = some d) (less : d < base)
    (rest : List UInt8) : scan base n (c :: rest) = scan base (base * n + d) rest := by
  simp only [scan, is, less, if_true]

theorem scan_digits (many : 1 < base) (few : base ≤ 16) (n start : Nat) (rest : List UInt8) :
    scan base start (digits base n ++ rest) =
      scan base (start * base ^ (digits base n).length + n) rest := by
  induction n using Nat.strong_induction_on generalizing rest with
  | _ n ih =>
    rcases Nat.lt_or_ge n base with less | more
    · rw [digits_of_lt less, List.singleton_append, scan_digit (digit_digitChar (by omega)) less,
        List.length_singleton, Nat.pow_one, Nat.mul_comm]
    · have smaller := Nat.div_lt_self (by omega : 0 < n) many
      have last := Nat.mod_lt n (by omega : base > 0)
      rw [digits_of_le many more, List.append_assoc, ih (n / base) smaller, List.singleton_append,
        scan_digit (digit_digitChar (by omega)) last, List.length_append, List.length_singleton,
        Nat.pow_succ]
      congr 1
      have parts := Nat.div_add_mod n base
      calc base * (start * base ^ (digits base (n / base)).length + n / base) + n % base
          = start * (base ^ (digits base (n / base)).length * base) + (base * (n / base) + n % base) := by
            ring
        _ = start * (base ^ (digits base (n / base)).length * base) + n := by rw [parts]

theorem digits_ne_nil (base n : Nat) : digits base n ≠ [] := by
  rw [digits, ne_eq, List.map_eq_nil_iff]
  exact Nat.toDigits_ne_nil

theorem isDigit_of_mem (many : 1 < base) (few : base ≤ 16) {n : Nat} {c : UInt8}
    (inside : c ∈ digits base n) : isDigit base c = true := by
  induction n using Nat.strong_induction_on with
  | _ n ih =>
    have each {d : Nat} (less : d < base) :
        isDigit base (UInt8.ofNat (Nat.digitChar d).toNat) = true := by
      rw [isDigit, digit_digitChar (by omega), Option.any_some]
      exact decide_eq_true less
    rcases Nat.lt_or_ge n base with less | more
    · rw [digits_of_lt less, List.mem_singleton] at inside
      exact inside ▸ each less
    · rw [digits_of_le many more, List.mem_append, List.mem_singleton] at inside
      rcases inside with front | last
      · exact ih (n / base) (Nat.div_lt_self (by omega) many) front
      · exact last ▸ each (Nat.mod_lt n (by omega))

theorem scan_stop {n : Nat} {rest : List UInt8} (stop : ∀ c ∈ rest.head?, isDigit base c = false) :
    scan base n rest = (n, rest) := by
  cases rest with
  | nil => rfl
  | cons c rest =>
    have no := stop c rfl
    rw [isDigit] at no
    unfold scan
    cases is : digit c with
    | none => rfl
    | some d =>
      rw [is, Option.any_some, decide_eq_false_iff_not] at no
      exact if_neg no

theorem scan_digits_stop (many : 1 < base) (few : base ≤ 16) (n : Nat) {rest : List UInt8}
    (stop : ∀ c ∈ rest.head?, isDigit base c = false) :
    scan base 0 (digits base n ++ rest) = (n, rest) := by
  rw [scan_digits many few, Nat.zero_mul, Nat.zero_add, scan_stop stop]

theorem length_digits_le_iff (many : 1 < base) {n k : Nat} (positive : 0 < k) :
    (digits base n).length ≤ k ↔ n < base ^ k := by
  rw [digits, List.length_map, Nat.length_toDigits_le_iff many positive]

end

end Numeral
