import Pskynet.Shared.Words
import Pskynet.Sproto.Decode

set_option autoImplicit false

namespace Pskynet.Sproto

open Memory

def Narrow (v : Int64) : Prop := v >>> 31 = 0 ∨ v >>> 31 = -1

instance (v : Int64) : Decidable (Narrow v) := inferInstanceAs (Decidable (_ ∨ _))

theorem narrow_iff (v : Int64) : Narrow v ↔ -2 ^ 31 ≤ v.toInt ∧ v.toInt < 2 ^ 31 := by
  have shift := Words.toInt_shiftRight_31 v
  have zero : v >>> 31 = 0 ↔ v.toInt / 2 ^ 31 = 0 := by
    rw [← Int64.toInt_inj, shift]
    rfl
  have minus : v >>> 31 = -1 ↔ v.toInt / 2 ^ 31 = -1 := by
    rw [← Int64.toInt_inj, shift]
    rfl
  rw [Narrow, zero, minus]
  omega

def low (v : Int64) : UInt32 := v.toUInt64.toUInt32

theorem toNat_low (v : Int64) : (low v).toNat = v.toUInt64.toNat % 2 ^ 32 :=
  UInt64.toNat_toUInt32 _

theorem narrow_halves (v : Int64) (narrow : Narrow v) :
    v.toUInt64.toNat / 2 ^ 32 = (if 2 ^ 31 ≤ (low v).toNat then 2 ^ 32 - 1 else 0) := by
  rw [narrow_iff] at narrow
  have lower := toNat_low v
  by_cases negative : v.toInt < 0
  · have value := Words.toNat_of_neg v negative
    rw [if_pos (by omega)]
    omega
  · have value := Words.toNat_of_nonneg v (by omega)
    rw [if_neg (by omega)]
    omega

theorem signBytes_eq (negative : Bool) :
    signBytes negative = LittleEndian.bytes 4 (if negative then 2 ^ 32 - 1 else 0) := by
  cases negative <;> rfl

theorem bytes_narrow (v : Int64) (narrow : Narrow v) :
    LittleEndian.bytes 8 v.toUInt64.toNat =
      LittleEndian.bytes 4 (low v).toNat ++ signBytes (2 ^ 31 ≤ (low v).toNat) := by
  have halves := narrow_halves v narrow
  have lower : LittleEndian.bytes 4 (low v).toNat = LittleEndian.bytes 4 v.toUInt64.toNat := by
    rw [toNat_low]
    exact LittleEndian.bytes_mod 4 _
  rw [show 8 = 4 + 4 from rfl, LittleEndian.bytes_add, lower, signBytes_eq]
  congr 2
  rw [show (256 : Nat) ^ 4 = 2 ^ 32 by norm_num, halves]
  simp

theorem sign_bit (v : UInt32) : v.toUInt64 &&& 0x80000000 ≠ 0 ↔ 2 ^ 31 ≤ v.toNat := by
  have same : v.toUInt64 &&& 0x80000000 = 0 ↔ v &&& 0x80000000 = 0 := by
    rw [← UInt64.toNat_inj, ← UInt32.toNat_inj, UInt64.toNat_and, UInt32.toNat_and,
      UInt32.toNat_toUInt64]
    rfl
  rw [ne_eq, same, Words.and_sign_eq_zero_iff, not_lt]

theorem expand64_low (v : Int64) (narrow : Narrow v) : expand64 (low v) = v.toUInt64 := by
  have halves := narrow_halves v narrow
  have lower := toNat_low v
  have bound := v.toUInt64.toNat_lt
  have small := (low v).toNat_lt
  have nat : (low v).toUInt64.toNat = (low v).toNat := UInt32.toNat_toUInt64 _
  rw [expand64]
  by_cases negative : 2 ^ 31 ≤ (low v).toNat
  · rw [if_pos negative] at halves
    rw [if_pos ((sign_bit _).mpr negative), ← UInt64.toNat_inj,
      Words.toNat_or_disjoint_uint64 32 _ _ (by decide) (by omega), nat]
    change (low v).toNat + 18446744069414584320 = _
    omega
  · rw [if_neg negative] at halves
    rw [if_neg ((sign_bit _).not.mpr negative), ← UInt64.toNat_inj, nat]
    omega

theorem todword_bytes (n : Nat) (rest : List UInt8) :
    todword (LittleEndian.bytes 4 n ++ rest) = UInt32.ofNat n := by
  have four := LittleEndian.length_bytes 4 n
  rw [todword, List.take_left' four, LittleEndian.value_bytes, ← UInt32.toNat_inj,
    UInt32.toNat_ofNat', UInt32.toNat_ofNat']
  exact Nat.mod_mod _ _

theorem toqword_bytes (v : UInt64) (rest : List UInt8) :
    toqword (LittleEndian.bytes 8 v.toNat ++ rest) = v := by
  have bound := v.toNat_lt
  have split : LittleEndian.bytes 8 v.toNat =
      LittleEndian.bytes 4 v.toNat ++ LittleEndian.bytes 4 (v.toNat / 256 ^ 4) :=
    LittleEndian.bytes_add 4 4 _
  have four := LittleEndian.length_bytes 4 v.toNat
  have lower : (UInt32.ofNat v.toNat).toNat = v.toNat % 2 ^ 32 := UInt32.toNat_ofNat'
  have upper : (UInt32.ofNat (v.toNat / 256 ^ 4)).toNat = v.toNat / 2 ^ 32 := by
    rw [UInt32.toNat_ofNat', show (256 : Nat) ^ 4 = 2 ^ 32 by norm_num]
    exact Nat.mod_eq_of_lt (by omega)
  have shifted : ((UInt32.ofNat (v.toNat / 256 ^ 4)).toUInt64 <<< 32).toNat =
      v.toNat / 2 ^ 32 * 2 ^ 32 := by
    rw [UInt64.toNat_shiftLeft, UInt32.toNat_toUInt64, upper, Nat.shiftLeft_eq]
    exact Nat.mod_eq_of_lt (by change _ * 2 ^ 32 < 2 ^ 64; omega)
  rw [toqword, split, List.append_assoc, todword_bytes, List.drop_left' four, todword_bytes,
    ← UInt64.toNat_inj, Words.toNat_or_disjoint_uint64 32 _ _ (by rw [shifted]; exact ⟨_, Nat.mul_comm _ _⟩)
      (by rw [UInt32.toNat_toUInt64, lower]; omega), shifted, UInt32.toNat_toUInt64, lower]
  omega

theorem high_byte (n : Nat) (small : n < 2 ^ 32) :
    ((LittleEndian.bytes 4 n).getD 3 0 &&& 0x80 ≠ 0) ↔ 2 ^ 31 ≤ n := by
  have all : ∀ b : Fin 256, (UInt8.ofNat b &&& 0x80 ≠ 0) ↔ 128 ≤ b.val := by decide +kernel
  have byte : (LittleEndian.bytes 4 n).getD 3 0 = UInt8.ofNat (n / 256 / 256 / 256) := rfl
  have top := all ⟨n / 256 / 256 / 256, by omega⟩
  rw [byte, top]
  change 128 ≤ n / 256 / 256 / 256 ↔ _
  omega

def wide (n : Nat) : List UInt8 := LittleEndian.bytes 4 n ++ signBytes (2 ^ 31 ≤ n)

theorem rearrangeLoop_moves (words : List Nat) (small : ∀ n ∈ words, n < 2 ^ 32)
    (junk rest : List UInt8) (room : junk.length = words.length * 4) :
    rearrangeLoop words.length (words.flatMap (LittleEndian.bytes 4) ++ (junk ++ rest)) =
      words.flatMap wide ++ rest := by
  induction words using List.reverseRecOn generalizing junk rest with
  | nil =>
    have empty : junk = [] := List.length_eq_zero_iff.mp (by simpa using room)
    simp [rearrangeLoop, empty]
  | append_singleton words n ih =>
    have elements : (words.flatMap (LittleEndian.bytes 4)).length = words.length * 4 := by
      simp [List.length_flatMap]
    have four := LittleEndian.length_bytes 4 n
    have sign := high_byte n (small n (by simp))
    have junks : junk.length = words.length * 4 + 4 := by
      rw [room, List.length_append, List.length_singleton]
      omega
    -- The last element goes to the end of the room, its sign behind it.
    have step (buffer : List UInt8)
        (same : buffer = words.flatMap (LittleEndian.bytes 4) ++
          (LittleEndian.bytes 4 n ++ (junk ++ rest))) :
        rearrangeLoop (words.length + 1) buffer =
          rearrangeLoop words.length (words.flatMap (LittleEndian.bytes 4) ++
            ((LittleEndian.bytes 4 n ++ junk).take (words.length * 4) ++ (wide n ++ rest))) := by
      have source : (buffer.drop (words.length * 4)).take 4 = LittleEndian.bytes 4 n := by
        rw [same, List.drop_left' elements, List.take_left' four]
      have length : buffer.length = words.length * 8 + 8 + rest.length := by
        rw [same]
        simp only [List.length_append, elements, four, junks]
        omega
      have before : (buffer.take (words.length * 8)).length = words.length * 8 := by
        rw [List.length_take]
        omega
      have moved : memcpy buffer (words.length * 8) (LittleEndian.bytes 4 n) =
          buffer.take (words.length * 8) ++
            (LittleEndian.bytes 4 n ++ buffer.drop (words.length * 8 + 4)) := by
        rw [memcpy, four, List.append_assoc]
      have top : (memcpy buffer (words.length * 8) (LittleEndian.bytes 4 n)).getD
          (words.length * 8 + 3) 0 = (LittleEndian.bytes 4 n).getD 3 0 := by
        rw [moved, List.getD_append_right _ _ _ _ (by omega), before, Nat.add_sub_cancel_left,
          List.getD_append _ _ _ _ (by omega)]
      have signed : signBytes ((LittleEndian.bytes 4 n).getD 3 0 &&& 0x80 ≠ 0) =
          signBytes (2 ^ 31 ≤ n) := by
        congr 1
        exact decide_eq_decide.mpr sign
      have signs : (signBytes (2 ^ 31 ≤ n)).length = 4 := by
        rw [signBytes_eq, LittleEndian.length_bytes]
      have parts : buffer = (words.flatMap (LittleEndian.bytes 4) ++
          (LittleEndian.bytes 4 n ++ junk)) ++ rest := by
        rw [same, List.append_assoc, List.append_assoc]
      have last : buffer.drop (words.length * 8 + 8) = rest := by
        rw [parts, List.drop_left']
        simp only [List.length_append, elements, four, junks]
        omega
      have first : buffer.take (words.length * 8) = words.flatMap (LittleEndian.bytes 4) ++
          (LittleEndian.bytes 4 n ++ junk).take (words.length * 4) := by
        rw [parts, List.take_append_of_le_length, List.take_append, elements,
          List.take_of_length_le (by omega), show words.length * 8 - words.length * 4 = words.length * 4
            by omega]
        simp only [List.length_append, elements, four, junks]
        omega
      rw [rearrangeLoop]
      simp only [source, top, signed]
      congr 1
      rw [moved, memcpy, signs, ← List.append_assoc, List.take_left' (by
        rw [List.length_append, before, four]), List.drop_append, List.drop_of_length_le (by
        rw [List.length_append, before, four]; omega), List.nil_append, List.length_append, before,
        four, List.drop_drop, show words.length * 8 + 4 + (words.length * 8 + 4 + 4 -
          (words.length * 8 + 4)) = words.length * 8 + 8 by omega, last, first, wide]
      simp only [List.append_assoc]
    rw [List.length_append, List.length_singleton, List.flatMap_append, List.flatMap_singleton,
      step _ (List.append_assoc _ _ _), ih (fun m inside => small m (by simp [inside]))]
    · rw [List.flatMap_append, List.flatMap_singleton, List.append_assoc]
    · rw [List.length_take, List.length_append, four, junks]
      omega

theorem rearrange_words (words : List Nat) (small : ∀ n ∈ words, n < 2 ^ 32) :
    rearrange words.length (words.flatMap (LittleEndian.bytes 4)) = words.flatMap wide := by
  have moved := rearrangeLoop_moves words small (malloc (words.length * 4)) [] (length_malloc _)
  rwa [List.append_nil, List.append_nil] at moved

instance (values : List Int64) : Decidable (∀ v ∈ values, Narrow v) :=
  List.decidableBAll (fun v => Narrow v) values

def arrayWidth (values : List Int64) : Nat := if ∀ v ∈ values, Narrow v then 4 else 8

def arrayBytes (values : List Int64) : List UInt8 :=
  values.flatMap fun v => LittleEndian.bytes (arrayWidth values) v.toUInt64.toNat

theorem arrayWidth_append (values : List Int64) (v : Int64) :
    arrayWidth (values ++ [v]) = if Narrow v then arrayWidth values else 8 := by
  unfold arrayWidth
  by_cases narrow : Narrow v
  · simp [narrow, or_imp, forall_and]
  · simp [narrow, or_imp, forall_and]

theorem bytes_low (v : Int64) :
    LittleEndian.bytes 4 (low v).toNat = LittleEndian.bytes 4 v.toUInt64.toNat := by
  rw [toNat_low]
  exact LittleEndian.bytes_mod 4 _

theorem arrayBytes_narrow (values : List Int64) (v : Int64) (narrow : Narrow v) :
    arrayBytes (values ++ [v]) = arrayBytes values ++ (LittleEndian.bytes 4 (low v).toNat ++
      if arrayWidth values = 8 then signBytes (2 ^ 31 ≤ (low v).toNat) else []) := by
  have width : arrayWidth (values ++ [v]) = arrayWidth values := by
    rw [arrayWidth_append, if_pos narrow]
  rw [arrayBytes, width, List.flatMap_append, List.flatMap_singleton, ← arrayBytes]
  congr 1
  split_ifs with eight
  · rw [eight, bytes_narrow v narrow]
  · have four : arrayWidth values = 4 := by
      unfold arrayWidth at eight ⊢
      split_ifs at eight ⊢ <;> simp_all
    rw [four, bytes_low, List.append_nil]

theorem arrayBytes_wide (values : List Int64) (v : Int64) (wideValue : ¬Narrow v) :
    arrayBytes (values ++ [v]) =
      (if arrayWidth values = 4 then rearrange values.length (arrayBytes values)
        else arrayBytes values) ++ LittleEndian.bytes 8 v.toUInt64.toNat := by
  have width : arrayWidth (values ++ [v]) = 8 := by
    rw [arrayWidth_append, if_neg wideValue]
  rw [arrayBytes, width, List.flatMap_append, List.flatMap_singleton]
  congr 1
  split_ifs with four
  · have narrow : ∀ w ∈ values, Narrow w := by
      by_contra other
      rw [arrayWidth, if_neg other] at four
      contradiction
    have words : arrayBytes values =
        (values.map fun w => (low w).toNat).flatMap (LittleEndian.bytes 4) := by
      rw [arrayBytes, four, List.flatMap_map]
      simp only [bytes_low]
    have size : values.length = (values.map fun w => (low w).toNat).length := by simp
    rw [words, size, rearrange_words, List.flatMap_map]
    · refine List.flatMap_congr ?_
      intro w inside
      exact bytes_narrow w (narrow w inside)
    · intro n inside
      obtain ⟨w, _, rfl⟩ := List.mem_map.mp inside
      exact (low w).toNat_lt
  · have eight : arrayWidth values = 8 := by
      unfold arrayWidth at four ⊢
      split_ifs at four ⊢ <;> simp_all
    rw [arrayBytes, eight]

end Pskynet.Sproto
