import Pskynet.Shared.Search

set_option autoImplicit false

namespace Pskynet.Lua

abbrev LuaString := {s : List UInt8 // s.length < 2 ^ 63}

-- `posrelat` of `lstrlib.c`: a position counts from 1 or, if it is negative, from the end.
def posrelat (pos : Int) (len : Nat) : Int :=
  if 0 ≤ pos then pos else if (len : Int) < -pos then 0 else len + pos + 1

def sub (s : List UInt8) (i j : Int) : List UInt8 :=
  let first := max 1 (posrelat i s.length)
  let last := min (s.length : Int) (posrelat j s.length)
  if first ≤ last then (s.drop (first - 1).toNat).take (last - first + 1).toNat else []

-- `s:find(p, init, true)`, with the place where it is found counted from 0
def find (s p : List UInt8) (init : Int) : Option Nat :=
  let first := max 1 (posrelat init s.length)
  if s.length + 1 < first then none
  else (Search.find p (s.drop (first - 1).toNat)).map (· + (first - 1).toNat)

theorem posrelat_natCast (n len : Nat) : posrelat n len = n := if_pos (Int.natCast_nonneg n)

theorem posrelat_last (len : Nat) : posrelat (-1) len = len := by
  unfold posrelat
  split_ifs <;> omega

theorem sub_front (s : List UInt8) (n : Nat) : sub s 1 n = s.take n := by
  have one : posrelat 1 s.length = 1 := posrelat_natCast 1 s.length
  unfold sub
  rw [one, posrelat_natCast, Int.max_self]
  rcases Nat.eq_zero_or_pos (min s.length n) with none | some
  · rw [if_neg (by omega)]
    refine (List.length_eq_zero_iff.mp ?_).symm
    rw [List.length_take]
    omega
  · rw [if_pos (by omega)]
    have length : (min (s.length : Int) n - 1 + 1).toNat = min s.length n := by omega
    change (s.drop 0).take _ = _
    rw [List.drop_zero, length, Nat.min_comm, ← List.take_eq_take_min]

theorem sub_behind (s : List UInt8) (n : Nat) : sub s (n + 1) (-1) = s.drop n := by
  have first : posrelat ((n : Int) + 1) s.length = (n + 1 : Nat) := posrelat_natCast (n + 1) s.length
  unfold sub
  rw [first, posrelat_last, Int.min_self]
  rcases Nat.lt_or_ge n s.length with less | more
  · have begin_ : (max 1 ((n + 1 : Nat) : Int) - 1).toNat = n := by omega
    have count : ((s.length : Int) - max 1 ((n + 1 : Nat) : Int) + 1).toNat = s.length - n := by omega
    rw [if_pos (by omega), begin_, count, List.take_of_length_le (by rw [List.length_drop])]
  · rw [if_neg (by omega), List.drop_eq_nil_of_le more]

theorem find_first (s p : List UInt8) : find s p 1 = Search.find p s := by
  have one : posrelat 1 s.length = 1 := posrelat_natCast 1 s.length
  unfold find
  rw [one, Int.max_self, if_neg (by omega)]
  change (Search.find p (s.drop 0)).map (· + 0) = _
  rw [List.drop_zero]
  exact Option.map_id_apply

theorem find_last (s p : List UInt8) {n : Nat} (positive : 0 < n) :
    find s p (-n) = (Search.find p (s.drop (s.length - n))).map (· + (s.length - n)) := by
  have place : (max 1 (posrelat (-n) s.length) - 1).toNat = s.length - n := by
    unfold posrelat
    split_ifs <;> omega
  have inside : ¬(s.length : Int) + 1 < max 1 (posrelat (-n) s.length) := by
    unfold posrelat
    split_ifs <;> omega
  unfold find
  rw [if_neg inside, place]

end Pskynet.Lua
