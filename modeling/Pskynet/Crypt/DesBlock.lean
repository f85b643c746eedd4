import Pskynet.Crypt.Des
import Pskynet.Shared.Feistel
import Pskynet.Shared.Words

set_option autoImplicit false

namespace Pskynet.Crypt

theorem shift_back (t k : UInt32) (low : k.toNat < 32) (small : t.toNat < 2 ^ (32 - k.toNat)) :
    t <<< k >>> k = t := by
  have split : 2 ^ (32 - k.toNat) * 2 ^ k.toNat = 2 ^ 32 := by
    rw [← Nat.pow_add]
    congr 1
    omega
  have positive : 0 < 2 ^ k.toNat := Nat.pow_pos (by decide)
  have fits : t.toNat * 2 ^ k.toNat < 2 ^ 32 :=
    split ▸ Nat.mul_lt_mul_of_pos_right small positive
  have mod : k.toNat % 32 = k.toNat := Nat.mod_eq_of_lt low
  rw [← UInt32.toNat_inj, UInt32.toNat_shiftRight, UInt32.toNat_shiftLeft, mod, Nat.shiftLeft_eq,
    Nat.mod_eq_of_lt fits, Nat.shiftRight_eq_div_pow, Nat.mul_div_cancel _ positive]

theorem xor_cancel (a b : UInt32) : a ^^^ b ^^^ b = a := by
  rw [UInt32.xor_assoc, UInt32.xor_self, UInt32.xor_zero]

theorem exchange_exchange (k mask : UInt32) (low : k.toNat < 32)
    (room : mask.toNat < 2 ^ (32 - k.toNat)) (block : UInt32 × UInt32) :
    exchange k mask (exchange k mask block) = block := by
  obtain ⟨x, y⟩ := block
  have small : ((x >>> k ^^^ y) &&& mask).toNat < 2 ^ (32 - k.toNat) := by
    rw [UInt32.toNat_and]
    exact Nat.lt_of_le_of_lt Nat.and_le_right room
  have back := shift_back _ k low small
  have same : ((x ^^^ ((x >>> k ^^^ y) &&& mask) <<< k) >>> k ^^^
      (y ^^^ ((x >>> k ^^^ y) &&& mask))) &&& mask = (x >>> k ^^^ y) &&& mask := by
    rw [UInt32.shiftRight_xor, back, UInt32.xor_comm y, ← UInt32.xor_assoc, xor_cancel]
  unfold exchange
  simp only
  rw [same, xor_cancel, xor_cancel]

theorem exchangeOdd_exchangeOdd (block : UInt32 × UInt32) :
    exchangeOdd (exchangeOdd block) = block := by
  obtain ⟨x, y⟩ := block
  have same (t : UInt32) : x ^^^ t ^^^ (y ^^^ t) = x ^^^ y := by
    rw [UInt32.xor_comm y, ← UInt32.xor_assoc, xor_cancel]
  unfold exchangeOdd
  simp only
  rw [same, xor_cancel, xor_cancel]

theorem toNat_rotateUp (y : UInt32) :
    (rotateUp y).toNat = y.toNat * 2 % 2 ^ 32 + y.toNat / 2 ^ 31 := by
  have bound := y.toNat_lt
  have left : (y <<< 1).toNat = y.toNat * 2 % 2 ^ 32 := by
    rw [UInt32.toNat_shiftLeft]
    exact congrArg (· % 2 ^ 32) (Nat.shiftLeft_eq y.toNat 1)
  have right : (y >>> 31).toNat = y.toNat / 2 ^ 31 := by
    rw [UInt32.toNat_shiftRight]
    exact Nat.shiftRight_eq_div_pow y.toNat 31
  have even : 2 ^ 1 ∣ (y <<< 1).toNat := by
    rw [left]
    omega
  have mask : (0xFFFFFFFF : UInt32).toNat = 2 ^ 32 - 1 := rfl
  rw [rotateUp, Words.toNat_and_mask 32 _ _ mask,
    Words.toNat_or_disjoint 1 _ _ even (by rw [right]; omega), left, right]
  omega

theorem toNat_rotateDown (y : UInt32) :
    (rotateDown y).toNat = y.toNat % 2 * 2 ^ 31 + y.toNat / 2 := by
  have bound := y.toNat_lt
  have left : (y <<< 31).toNat = y.toNat % 2 * 2 ^ 31 := by
    rw [UInt32.toNat_shiftLeft]
    show y.toNat <<< 31 % 2 ^ 32 = _
    rw [Nat.shiftLeft_eq]
    omega
  have right : (y >>> 1).toNat = y.toNat / 2 := by
    rw [UInt32.toNat_shiftRight]
    exact Nat.shiftRight_eq_div_pow y.toNat 1
  have high : 2 ^ 31 ∣ (y <<< 31).toNat := by
    rw [left]
    exact Nat.dvd_mul_left _ _
  have mask : (0xFFFFFFFF : UInt32).toNat = 2 ^ 32 - 1 := rfl
  rw [rotateDown, Words.toNat_and_mask 32 _ _ mask,
    Words.toNat_or_disjoint 31 _ _ high (by rw [right]; omega), left, right]
  omega

theorem rotateDown_rotateUp (y : UInt32) : rotateDown (rotateUp y) = y := by
  have bound := y.toNat_lt
  rw [← UInt32.toNat_inj, toNat_rotateDown, toNat_rotateUp]
  rcases Nat.lt_or_ge y.toNat (2 ^ 31) with low | high
  · rw [Nat.mod_eq_of_lt (by omega : y.toNat * 2 < 2 ^ 32), Nat.div_eq_of_lt low]
    omega
  · have rest : y.toNat * 2 % 2 ^ 32 = y.toNat * 2 - 2 ^ 32 := by
      rw [Nat.mod_eq_sub_mod (by omega), Nat.mod_eq_of_lt (by omega)]
    have top : y.toNat / 2 ^ 31 = 1 := by omega
    rw [rest, top]
    omega

theorem rotateUp_rotateDown (y : UInt32) : rotateUp (rotateDown y) = y := by
  have bound := y.toNat_lt
  rw [← UInt32.toNat_inj, toNat_rotateUp, toNat_rotateDown]
  rcases Nat.mod_two_eq_zero_or_one y.toNat with even | odd <;> omega

section Exchanges

variable (block : UInt32 × UInt32)

theorem exchange_4 : exchange 4 0x0F0F0F0F (exchange 4 0x0F0F0F0F block) = block :=
  exchange_exchange 4 _ (by decide) (by decide) block

theorem exchange_16 : exchange 16 0x0000FFFF (exchange 16 0x0000FFFF block) = block :=
  exchange_exchange 16 _ (by decide) (by decide) block

theorem exchange_2 : exchange 2 0x33333333 (exchange 2 0x33333333 block) = block :=
  exchange_exchange 2 _ (by decide) (by decide) block

theorem exchange_8 : exchange 8 0x00FF00FF (exchange 8 0x00FF00FF block) = block :=
  exchange_exchange 8 _ (by decide) (by decide) block

theorem desFp_desIp : desFp (desIp block) = block := by
  unfold desFp desIp
  simp only [rotateDown_rotateUp, Prod.mk.eta, exchangeOdd_exchangeOdd, Prod.swap_swap, exchange_8,
    exchange_2, exchange_16, exchange_4]

theorem desIp_desFp : desIp (desFp block) = block := by
  unfold desFp desIp
  simp only [rotateUp_rotateDown, Prod.mk.eta, exchangeOdd_exchangeOdd, Prod.swap_swap, exchange_8,
    exchange_2, exchange_16, exchange_4]

end Exchanges

def desMix (sk : UInt32 × UInt32) (x : UInt32) : UInt32 := desRound sk x 0

theorem desRound_eq (sk : UInt32 × UInt32) (x y : UInt32) : desRound sk x y = y ^^^ desMix sk x := by
  unfold desMix desRound
  simp only [UInt32.zero_xor, UInt32.xor_assoc]

abbrev desRounds (keys : List (UInt32 × UInt32)) (block : UInt32 × UInt32) : UInt32 × UInt32 :=
  Feistel.rounds (· ^^^ ·) desMix keys block

def roundKeys (sk : List UInt32) (n : Nat) : List (UInt32 × UInt32) :=
  (List.range n).map (roundKey sk)

theorem foldl_roundPair (sk : List UInt32) (n : Nat) (block : UInt32 × UInt32) :
    (List.range n).foldl (roundPair sk) block = desRounds (roundKeys sk (2 * n)) block := by
  induction n with
  | zero => rfl
  | succ n ih =>
    have twice : roundKeys sk (2 * (n + 1)) =
        roundKeys sk (2 * n) ++ [roundKey sk (2 * n), roundKey sk (2 * n + 1)] := by
      unfold roundKeys
      rw [show 2 * (n + 1) = 2 * n + 1 + 1 from rfl, List.range_succ, List.range_succ]
      simp
    rw [List.range_succ, List.foldl_append, ih, twice]
    unfold desRounds Feistel.rounds
    rw [List.foldl_append]
    simp only [List.foldl_cons, List.foldl_nil, roundPair, Feistel.round, desRound_eq]

theorem roundKeys_decodeKeys (esk : List UInt32) :
    roundKeys (decodeKeys esk) 16 = (roundKeys esk 16).reverse := rfl

def word (b0 b1 b2 b3 : UInt8) : UInt32 :=
  b0.toUInt32 <<< 24 ||| b1.toUInt32 <<< 16 ||| b2.toUInt32 <<< 8 ||| b3.toUInt32

theorem toNat_word (b0 b1 b2 b3 : UInt8) :
    (word b0 b1 b2 b3).toNat =
      b0.toNat * 2 ^ 24 + b1.toNat * 2 ^ 16 + b2.toNat * 2 ^ 8 + b3.toNat :=
  Words.toNat_four_bytes b0 b1 b2 b3

theorem putUint32_word (b0 b1 b2 b3 : UInt8) : putUint32 (word b0 b1 b2 b3) = [b0, b1, b2, b3] := by
  have value := toNat_word b0 b1 b2 b3
  have top := b0.toNat_lt
  have high := b1.toNat_lt
  have low := b2.toNat_lt
  have last := b3.toNat_lt
  have byte (k : UInt32) (small : k.toNat < 32) (b : UInt8)
      (is : (word b0 b1 b2 b3).toNat / 2 ^ k.toNat % 256 = b.toNat) :
      ((word b0 b1 b2 b3) >>> k).toUInt8 = b := by
    rw [← UInt8.toNat_inj, UInt32.toNat_toUInt8, Words.toNat_shiftRight_lt _ _ small]
    exact is
  have lowest : (word b0 b1 b2 b3).toUInt8 = b3 := by
    rw [← UInt8.toNat_inj, UInt32.toNat_toUInt8, value]
    omega
  rw [putUint32, byte 24 (by decide) b0 (by rw [value]; show _ / 2 ^ 24 % 256 = _; omega),
    byte 16 (by decide) b1 (by rw [value]; show _ / 2 ^ 16 % 256 = _; omega),
    byte 8 (by decide) b2 (by rw [value]; show _ / 2 ^ 8 % 256 = _; omega), lowest]

theorem word_putUint32 (n : UInt32) :
    word (n >>> 24).toUInt8 (n >>> 16).toUInt8 (n >>> 8).toUInt8 n.toUInt8 = n := by
  have bound := n.toNat_lt
  have byte (k : UInt32) (small : k.toNat < 32) :
      (n >>> k).toUInt8.toNat = n.toNat / 2 ^ k.toNat % 256 := by
    rw [UInt32.toNat_toUInt8, Words.toNat_shiftRight_lt _ _ small]
  have first : (n >>> 24).toUInt8.toNat = n.toNat / 2 ^ 24 % 256 := byte 24 (by decide)
  have second : (n >>> 16).toUInt8.toNat = n.toNat / 2 ^ 16 % 256 := byte 16 (by decide)
  have third : (n >>> 8).toUInt8.toNat = n.toNat / 2 ^ 8 % 256 := byte 8 (by decide)
  rw [← UInt32.toNat_inj, toNat_word, first, second, third, UInt32.toNat_toUInt8]
  omega

theorem getUint32_put (y x : UInt32) :
    getUint32 (putUint32 y ++ putUint32 x) 0 = y ∧ getUint32 (putUint32 y ++ putUint32 x) 4 = x :=
  ⟨word_putUint32 y, word_putUint32 x⟩

theorem put_getUint32 (block : List UInt8) (eight : block.length = 8) :
    putUint32 (getUint32 block 0) ++ putUint32 (getUint32 block 4) = block := by
  obtain ⟨a, b, c, d, e, f, g, h, rfl⟩ : ∃ a b c d e f g h, block = [a, b, c, d, e, f, g, h] := by
    match block, eight with
    | [a, b, c, d, e, f, g, h], _ => exact ⟨a, b, c, d, e, f, g, h, rfl⟩
  have front := putUint32_word a b c d
  have back := putUint32_word e f g h
  show putUint32 (word a b c d) ++ putUint32 (word e f g h) = _
  rw [front, back]
  rfl

theorem length_desCrypt (sk : List UInt32) (input : List UInt8) :
    (desCrypt sk input).length = 8 := rfl

theorem desCrypt_eq (sk : List UInt32) (input : List UInt8) :
    desCrypt sk input =
      putUint32 (desFp (desRounds (roundKeys sk 16)
          (desIp (getUint32 input 0, getUint32 input 4))).swap).1 ++
        putUint32 (desFp (desRounds (roundKeys sk 16)
          (desIp (getUint32 input 0, getUint32 input 4))).swap).2 := by
  unfold desCrypt
  simp only
  rw [foldl_roundPair]

theorem desCrypt_desCrypt (esk : List UInt32) (block : List UInt8) (eight : block.length = 8) :
    desCrypt (decodeKeys esk) (desCrypt esk block) = block := by
  rw [desCrypt_eq esk block]
  generalize start : desIp (getUint32 block 0, getUint32 block 4) = plain
  generalize done : desFp (desRounds (roundKeys esk 16) plain).swap = crypted
  obtain ⟨y, x⟩ := crypted
  have back : desIp (y, x) = (desRounds (roundKeys esk 16) plain).swap := by
    rw [← done, desIp_desFp]
  have undone : desRounds (roundKeys esk 16).reverse (desRounds (roundKeys esk 16) plain).swap =
      plain.swap := Feistel.rounds_reverse xor_cancel _ _
  obtain ⟨first, second⟩ := getUint32_put y x
  rw [desCrypt_eq, first, second, back, roundKeys_decodeKeys, undone, Prod.swap_swap, ← start,
    desFp_desIp]
  exact put_getUint32 block eight

end Pskynet.Crypt
