import Pskynet.Shared.Bytes
import Pskynet.Shared.Numeral

set_option autoImplicit false

namespace Pskynet.Lua

open Numeral

def isSpace (c : UInt8) : Bool := c = 32 ∨ (9 ≤ c ∧ c ≤ 13)

def isneg : List UInt8 → Bool × List UInt8
  | 45 :: s => (true, s)
  | 43 :: s => (false, s)
  | s => (false, s)

-- `l_castU2S((neg) ? 0u - a : a)`
def signed (neg : Bool) (a : Nat) : Int64 := if neg then -Int64.ofNat a else Int64.ofNat a

def hexPrefix : List UInt8 → Nat × List UInt8
  | 48 :: 120 :: s => (16, s)
  | 48 :: 88 :: s => (16, s)
  | s => (10, s)

def strToInt (s : List UInt8) : Option Int64 :=
  let (neg, s) := isneg (s.dropWhile isSpace)
  let (base, s) := hexPrefix s
  let (a, rest) := scan base 0 s
  if rest.length = s.length ∨ rest.dropWhile isSpace ≠ [] then none else some (signed neg a)

-- `b_str2int`; a letter or digit may not follow.
def strToIntBase (base : Nat) (s : List UInt8) : Option Int64 :=
  let (neg, s) := isneg (s.dropWhile isSpace)
  let (n, rest) := scan base 0 s
  if rest.length = s.length ∨ rest.head?.any (fun c => (digit c).isSome) ∨
      rest.dropWhile isSpace ≠ [] then none
  else some (signed neg n)

-- The number types that Lua is built with: `luaconf.h` here defines `LUA_32BITS`, so that integers
-- are `int` and floats are `float`; without it both have 64 bits.
inductive Build where
  | lua32
  | lua64
  deriving DecidableEq, Repr

namespace Build

def intBits : Build → Nat
  | lua32 => 32
  | lua64 => 64

def limit (build : Build) : Nat := 2 ^ (build.intBits - 1)

-- The bits of a `lua_Number`'s mantissa
def precision : Build → Nat
  | lua32 => 24
  | lua64 => 53

def integer (build : Build) (n : Int) : Int := n.bmod (2 ^ build.intBits)

theorem integer_eq {build : Build} {n : Int} (low : -build.limit ≤ n) (high : n < build.limit) :
    build.integer n = n := by
  refine Int.bmod_eq_of_le ?_ ?_
  · cases build <;> simp [limit, intBits] at low ⊢ <;> omega
  · cases build <;> simp [limit, intBits] at high ⊢ <;> omega

theorem precision_pos (build : Build) : 0 < build.precision := by
  cases build <;> decide

end Build

-- `tonumber` of a text where it is an integer
def tonumber (build : Build) (s : List UInt8) : Option Int :=
  (strToInt s).map fun n => build.integer n.toInt

section

variable {base : Nat}

theorem digit_plain {c : UInt8} (is : (digit c).isSome = true) :
    isSpace c = false ∧ c ≠ 45 ∧ c ≠ 43 := by
  revert is
  exact Bytes.forall_byte (fun c => (digit c).isSome = true → isSpace c = false ∧ c ≠ 45 ∧ c ≠ 43)
    (by decide +kernel) c

theorem decimal_plain {c : UInt8} (is : isDigit 10 c = true) : c ≠ 120 ∧ c ≠ 88 := by
  revert is
  exact Bytes.forall_byte (fun c => isDigit 10 c = true → c ≠ 120 ∧ c ≠ 88) (by decide +kernel) c

theorem digit_of_isDigit {c : UInt8} (is : isDigit base c = true) : (digit c).isSome = true := by
  rw [isDigit] at is
  cases value : digit c with
  | none => rw [value] at is; cases is
  | some d => rfl

theorem digits_cons (many : 1 < base) (few : base ≤ 16) (n : Nat) :
    ∃ c rest, digits base n = c :: rest ∧ isSpace c = false ∧ c ≠ 45 ∧ c ≠ 43 := by
  obtain ⟨c, rest, is⟩ := List.exists_cons_of_ne_nil (digits_ne_nil base n)
  have inside : isDigit base c = true :=
    isDigit_of_mem many few (n := n) (is ▸ List.mem_cons_self)
  exact ⟨c, rest, is, digit_plain (digit_of_isDigit inside)⟩

theorem isneg_plain {c : UInt8} {rest : List UInt8} (minus : c ≠ 45) (plus : c ≠ 43) :
    isneg (c :: rest) = (false, c :: rest) := by
  unfold isneg
  split
  · exact absurd (List.cons.inj ‹_›).1 minus
  · exact absurd (List.cons.inj ‹_›).1 plus
  · rfl

theorem isneg_digits (many : 1 < base) (few : base ≤ 16) (n : Nat) :
    isneg ((digits base n).dropWhile isSpace) = (false, digits base n) := by
  obtain ⟨c, rest, is, space, minus, plus⟩ := digits_cons many few n
  rw [is, List.dropWhile_cons_of_neg (by rw [space]; exact Bool.false_ne_true),
    isneg_plain minus plus]

theorem hexPrefix_digits (n : Nat) : hexPrefix (digits 10 n) = (10, digits 10 n) := by
  have decimal : ∀ c ∈ digits 10 n, isDigit 10 c = true :=
    fun c inside => isDigit_of_mem (by decide) (by decide) inside
  generalize digits 10 n = s at decimal
  unfold hexPrefix
  split
  · exact absurd rfl (decimal_plain (decimal 120 (by simp))).1
  · exact absurd rfl (decimal_plain (decimal 88 (by simp))).2
  · rfl

theorem scan_digits_all (many : 1 < base) (few : base ≤ 16) (n : Nat) :
    scan base 0 (digits base n) = (n, []) := by
  have back : scan base 0 (digits base n ++ []) = (n, []) := scan_digits_stop many few n nofun
  rwa [List.append_nil] at back

theorem length_digits_ne (base n : Nat) : ¬0 = (digits base n).length :=
  (List.length_pos_iff.mpr (digits_ne_nil base n)).ne

theorem strToInt_digits (n : Nat) : strToInt (digits 10 n) = some (Int64.ofNat n) := by
  simp only [strToInt, isneg_digits (by decide : 1 < 10) (by decide) n, hexPrefix_digits,
    scan_digits_all (by decide : 1 < 10) (by decide) n]
  rw [if_neg (by simp [length_digits_ne])]
  rfl

theorem strToInt_neg_digits (n : Nat) : strToInt (45 :: digits 10 n) = some (-Int64.ofNat n) := by
  have front : isneg ((45 :: digits 10 n).dropWhile isSpace) = (true, digits 10 n) := rfl
  simp only [strToInt, front, hexPrefix_digits, scan_digits_all (by decide : 1 < 10) (by decide) n]
  rw [if_neg (by simp [length_digits_ne])]
  rfl

theorem strToIntBase_digits (many : 1 < base) (few : base ≤ 16) (n : Nat) :
    strToIntBase base (digits base n) = some (Int64.ofNat n) := by
  simp only [strToIntBase, isneg_digits many few n, scan_digits_all many few n]
  rw [if_neg (by simp [length_digits_ne])]
  rfl

def intText (n : Int64) : List UInt8 :=
  if n.toInt < 0 then 45 :: digits 10 n.toInt.natAbs else digits 10 n.toInt.natAbs

theorem strToInt_intText (n : Int64) : strToInt (intText n) = some n := by
  unfold intText
  split_ifs with negative
  · have value : -(n.toInt.natAbs : Int) = n.toInt := by omega
    rw [strToInt_neg_digits, ← Int64.ofInt_eq_ofNat, Int64.neg_ofInt, value, Int64.ofInt_toInt]
  · have value : (n.toInt.natAbs : Int) = n.toInt := by omega
    rw [strToInt_digits, ← Int64.ofInt_eq_ofNat, value, Int64.ofInt_toInt]

theorem tonumber_digits {build : Build} {n : Nat} (few : n < build.limit) :
    tonumber build (digits 10 n) = some (n : Int) := by
  have small : n < 2 ^ 63 := few.trans_le (by cases build <;> decide)
  rw [tonumber, strToInt_digits, Option.map_some, Int64.toInt_ofNat_of_lt small,
    Build.integer_eq (by omega) (by exact_mod_cast few)]

theorem tonumber_intText {build : Build} {n : Int} (low : -build.limit ≤ n)
    (high : n < build.limit) : tonumber build (intText (Int64.ofInt n)) = some n := by
  have bound : build.limit ≤ 2 ^ 63 := by cases build <;> decide
  rw [tonumber, strToInt_intText, Option.map_some, Int64.toInt_ofInt_of_le (by omega) (by omega),
    Build.integer_eq low high]

end

end Pskynet.Lua
