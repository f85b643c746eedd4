import Pskynet.Crypt.Sha1
import Pskynet.Shared.BlockHash
import Pskynet.Shared.LittleEndian

set_option autoImplicit false

namespace Pskynet.Crypt.Secure

open BlockHash

def bigEndian (width n : Nat) : List UInt8 := (LittleEndian.bytes width n).reverse

def padded (bits : Nat) (message : List UInt8) : List UInt8 :=
  message ++ [0x80] ++ List.replicate ((119 - message.length % 64) % 64) 0 ++ bigEndian 8 bits

def digest (state : Chain) : List UInt8 := state.words.flatMap fun word => bigEndian 4 word.toNat

def hashWith (bits : Nat) (message : List UInt8) : List UInt8 :=
  digest (absorb compress 64 ((padded bits message).length / 64) initial (padded bits message))

def sha1 (message : List UInt8) : List UInt8 := hashWith (8 * message.length) message

end Pskynet.Crypt.Secure

namespace Pskynet.Crypt

open Secure BlockHash Memory

theorem digestByte_eq (word : UInt32) (i : Nat) (inside : i < 4) :
    digestByte word i = UInt8.ofNat (word.toNat / 256 ^ (3 - i)) := by
  have byte (n : UInt32) : (n &&& 255).toUInt8 = UInt8.ofNat n.toNat := by
    rw [← UInt8.toNat_inj, UInt32.toNat_toUInt8, Words.toNat_and_mask 8 n 255 rfl, UInt8.toNat_ofNat',
      Nat.mod_mod]
  have shifted (k : UInt32) (small : k.toNat < 32) :
      (word >>> k).toNat = word.toNat / 2 ^ k.toNat := Words.toNat_shiftRight_lt word k small
  rw [digestByte, byte]
  interval_cases i
  · exact congrArg UInt8.ofNat (shifted 24 (by decide))
  · exact congrArg UInt8.ofNat (shifted 16 (by decide))
  · exact congrArg UInt8.ofNat (shifted 8 (by decide))
  · exact congrArg UInt8.ofNat (shifted 0 (by decide))

theorem bigEndian_word (word : UInt32) (i : Nat) (first : i % 4 = 0) :
    [digestByte word i, digestByte word (i + 1), digestByte word (i + 2), digestByte word (i + 3)] =
      bigEndian 4 word.toNat := by
  have low (k : Nat) : digestByte word k = digestByte word (k % 4) := by
    have same : UInt32.ofNat k &&& 3 = UInt32.ofNat (k % 4) &&& 3 := by
      rw [← UInt32.toNat_inj, Words.toNat_and_mask 2 _ 3 rfl, Words.toNat_and_mask 2 _ 3 rfl,
        UInt32.toNat_ofNat', UInt32.toNat_ofNat']
      omega
    rw [digestByte, digestByte, same]
  rw [low i, low (i + 1), low (i + 2), low (i + 3), Nat.add_mod i 1, Nat.add_mod i 2, Nat.add_mod i 3,
    first, digestByte_eq _ _ (by decide), digestByte_eq _ _ (by decide),
    digestByte_eq _ _ (by decide), digestByte_eq _ _ (by decide)]
  simp [bigEndian, LittleEndian.bytes, Nat.div_div_eq_div_mul]

theorem digest_eq (state : Chain) :
    (List.range 20).map (fun i => digestByte (state.words.getD (i >>> 2) 0) i) = digest state := by
  rw [digest, Chain.words]
  simp only [List.flatMap_cons, List.flatMap_nil, List.append_nil]
  rw [← bigEndian_word state.a 0 rfl, ← bigEndian_word state.b 4 rfl, ← bigEndian_word state.c 8 rfl,
    ← bigEndian_word state.d 12 rfl, ← bigEndian_word state.e 16 rfl]
  rfl

theorem finalcount_eq (context : Sha1Ctx) :
    (List.range 8).map (fun i =>
      digestByte (if i ≥ 4 then context.count0 else context.count1) i) =
        bigEndian 8 (2 ^ 32 * context.count1.toNat + context.count0.toNat) := by
  have split (high low : Nat) (small : low < 2 ^ 32) :
      bigEndian 8 (2 ^ 32 * high + low) = bigEndian 4 high ++ bigEndian 4 low := by
    have above : (2 ^ 32 * high + low) / 256 ^ 4 = high := by omega
    have below : (2 ^ 32 * high + low) % 256 ^ 4 = low := by omega
    rw [bigEndian, bigEndian, bigEndian, ← List.reverse_append, LittleEndian.bytes_add 4 4, above,
      ← LittleEndian.bytes_mod 4 (2 ^ 32 * high + low), below]
  rw [split _ _ context.count0.toNat_lt, ← bigEndian_word context.count1 0 rfl,
    ← bigEndian_word context.count0 4 rfl]
  rfl

structure Absorbs (context : Sha1Ctx) (message : List UInt8) : Prop where
  streams : Streams compress 64 initial message context.state context.buffer
  low : context.count0.toNat = 8 * message.length % 2 ^ 32
  whole : context.buffer.length = 64

theorem absorbs_sha1Init (context : Sha1Ctx) (whole : context.buffer.length = 64) :
    Absorbs (sha1Init context) [] where
  streams := Streams.empty _ _
  low := rfl
  whole := whole

theorem transformLoop_eq (data : List UInt8) (i : Nat) (state : Chain) :
    transformLoop data i state =
      (i + 64 * ((data.length - i) / 64),
        absorb compress 64 ((data.length - i) / 64) state (data.drop i)) := by
  induction i, state using transformLoop.induct data with
  | case1 i state more ih =>
    have blocks : (data.length - i) / 64 = (data.length - (i + 64)) / 64 + 1 := by omega
    rw [transformLoop, if_pos more, ih, sha1Transform_eq, blocks, absorb, compress_take,
      List.drop_drop]
    congr 1
    omega
  | case2 i state fewer =>
    have none : (data.length - i) / 64 = 0 := by omega
    rw [transformLoop, if_neg fewer, none, absorb, Nat.mul_zero, Nat.add_zero]

variable {context : Sha1Ctx} {message : List UInt8}

theorem Absorbs.place (absorbs : Absorbs context message) :
    ((context.count0 >>> 3) &&& 63).toNat = message.length % 64 := by
  have low := absorbs.low
  rw [Words.toNat_and_mask 6 _ 63 rfl, Words.toNat_shiftRight_lt _ 3 (by decide),
    show (3 : UInt32).toNat = 3 from rfl]
  omega

theorem toNat_bits (data : List UInt8) :
    (UInt64.ofNat data.length <<< 3).toNat = 8 * data.length % 2 ^ 64 := by
  have shifted : (UInt64.ofNat data.length <<< 3).toNat = data.length % 2 ^ 64 * 8 % 2 ^ 64 := by
    rw [UInt64.toNat_shiftLeft, UInt64.toNat_ofNat', Nat.shiftLeft_eq]
    rfl
  omega

theorem Absorbs.update (absorbs : Absorbs context message) (data : List UInt8) :
    Absorbs (sha1Update context data) (message ++ data) := by
  have low : (sha1Update context data).count0.toNat = 8 * (message ++ data).length % 2 ^ 32 := by
    rw [count0_sha1Update, UInt32.toNat_add, UInt64.toNat_toUInt32, toNat_bits, absorbs.low,
      List.length_append]
    omega
  have part := Nat.mod_lt message.length (show 64 > 0 by decide)
  unfold sha1Update at low ⊢
  dsimp only at low ⊢
  rw [absorbs.place] at low ⊢
  split
  · rename_i closes
    rw [if_pos closes] at low
    have taken : (data.take (64 - message.length % 64)).length = 64 - message.length % 64 := by
      rw [List.length_take]
      omega
    have filled : message.length % 64 + (data.take (64 - message.length % 64)).length =
        context.buffer.length := by
      rw [taken, absorbs.whole]
      omega
    have rest (i : Nat) : (data.drop (i + 64 * ((data.length - i) / 64))).length =
        (data.length - i) % 64 := by
      rw [List.length_drop]
      omega
    have full : (memcpy context.buffer (message.length % 64)
        (data.take (64 - message.length % 64))).length = 64 := by
      rw [length_memcpy _ _ _ filled.le, absorbs.whole]
    rw [transformLoop_eq] at low ⊢
    refine ⟨?_, low, ?_⟩
    · rw [sha1Transform_eq, memcpy_full _ _ _ filled]
      refine absorbs.streams.close data (by omega) (by omega) (by decide) ?_
      have front := take_memcpy (memcpy context.buffer (message.length % 64)
        (data.take (64 - message.length % 64)))
        (data.drop (64 - message.length % 64 +
          64 * ((data.length - (64 - message.length % 64)) / 64))) 0
        (by rw [rest, full]; omega)
      rw [rest, Nat.zero_add, List.take_zero, List.nil_append] at front
      rw [← memcpy_full _ _ _ filled]
      exact front
    · rw [length_memcpy _ _ _ (by rw [rest, full]; omega), full]
  · rename_i short
    rw [if_neg short] at low
    refine ⟨?_, low, ?_⟩
    · exact absorbs.streams.fill data (by omega)
        (take_memcpy _ _ _ (by rw [absorbs.whole]; omega))
    · rw [length_memcpy _ _ _ (by rw [absorbs.whole]; omega), absorbs.whole]

theorem Absorbs.pad (absorbs : Absorbs context message) :
    Absorbs (padLoop context) (message ++ List.replicate (lacking context.count0) 0) := by
  induction context using padLoop.induct generalizing message with
  | case1 context short ih =>
    have more := ih (absorbs.update [0])
    rw [ne_eq, at_length_iff] at short
    rw [padLoop, if_pos (by rwa [ne_eq, at_length_iff]), ← lacking_add _ short, Nat.add_comm,
      List.replicate_add, ← List.append_assoc]
    rw [count0_sha1Update] at more
    exact more
  | case2 context there =>
    have none : lacking context.count0 = 0 := (at_length_iff _).mp (not_not.mp there)
    rw [padLoop, if_neg there, none, List.replicate_zero, List.append_nil]
    exact absorbs

theorem Absorbs.final (absorbs : Absorbs context message) :
    sha1Final context =
      hashWith (2 ^ 32 * context.count1.toNat + context.count0.toNat) message := by
  have marked := absorbs.update [0x80]
  have zeros : lacking (sha1Update context [0x80]).count0 =
      (119 - message.length % 64) % 64 := by
    have low := marked.low
    rw [List.length_append, List.length_singleton] at low
    rw [lacking]
    omega
  have closed := marked.pad.update
    (bigEndian 8 (2 ^ 32 * context.count1.toNat + context.count0.toNat))
  rw [zeros] at closed
  rw [sha1Final, finalcount_eq, digest_eq, hashWith, closed.streams.state]
  rfl

end Pskynet.Crypt
