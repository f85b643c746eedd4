import Pskynet.Crypt.Sha1Digest

set_option autoImplicit false

namespace Pskynet.Crypt

open Secure Memory

def Sha1Ctx.bits (context : Sha1Ctx) : Nat := 2 ^ 32 * context.count1.toNat + context.count0.toNat

theorem bits_sha1Update (context : Sha1Ctx) (data : List UInt8) (small : data.length < 2 ^ 61) :
    (sha1Update context data).bits =
      (context.bits + 8 * data.length +
        if 2 ^ 29 ≤ data.length ∧ context.count0.toNat + 8 * data.length % 2 ^ 32 < 2 ^ 32 then 2 ^ 32
        else 0) % 2 ^ 64 := by
  have bits := toNat_bits data
  have low : (sha1Update context data).count0.toNat =
      (context.count0.toNat + 8 * data.length) % 2 ^ 32 := by
    rw [count0_sha1Update, UInt32.toNat_add, UInt64.toNat_toUInt32, bits]
    omega
  have blocks : ((UInt64.ofNat data.length) >>> 29).toUInt32.toNat = data.length / 2 ^ 29 := by
    rw [UInt64.toNat_toUInt32, UInt64.toNat_shiftRight, UInt64.toNat_ofNat', Nat.shiftRight_eq_div_pow]
    change data.length % 2 ^ 64 / 2 ^ 29 % 2 ^ 32 = _
    omega
  have one : (context.count1 + 1).toNat = (context.count1.toNat + 1) % 2 ^ 32 :=
    UInt32.toNat_add _ _
  have high : (sha1Update context data).count1.toNat =
      (context.count1.toNat +
        (if (context.count0.toNat + 8 * data.length) % 2 ^ 32 < 8 * data.length then 1 else 0) +
          data.length / 2 ^ 29) % 2 ^ 32 := by
    have same : (sha1Update context data).count1 =
        (if (sha1Update context data).count0.toUInt64 < UInt64.ofNat data.length <<< 3 then
          context.count1 + 1 else context.count1) + (UInt64.ofNat data.length >>> 29).toUInt32 := by
      unfold sha1Update
      dsimp only
      split <;> rfl
    have carries : (sha1Update context data).count0.toUInt64 < UInt64.ofNat data.length <<< 3 ↔
        (context.count0.toNat + 8 * data.length) % 2 ^ 32 < 8 * data.length := by
      rw [UInt64.lt_iff_toNat_lt, UInt32.toNat_toUInt64, low, bits]
      omega
    rw [same, UInt32.toNat_add, blocks]
    simp only [carries]
    split
    · rw [one]
      omega
    · rw [Nat.add_zero]
  have above := context.count0.toNat_lt
  rw [Sha1Ctx.bits, Sha1Ctx.bits, low, high]
  split <;> split <;> omega

theorem bits_sha1Update_of_lt (context : Sha1Ctx) (data : List UInt8)
    (small : data.length < 2 ^ 29) :
    (sha1Update context data).bits = (context.bits + 8 * data.length) % 2 ^ 64 := by
  rw [bits_sha1Update context data (by omega), if_neg (by omega), Nat.add_zero]

theorem hashWith_mod (bits : Nat) (message : List UInt8) :
    hashWith (bits % 2 ^ 64) message = hashWith bits message := by
  have same : bigEndian 8 (bits % 2 ^ 64) = bigEndian 8 bits := by
    rw [bigEndian, bigEndian, ← LittleEndian.bytes_mod 8 bits]
    rfl
  rw [hashWith, hashWith, Secure.padded, Secure.padded, same]

theorem lsha1_eq (context : Sha1Ctx) (whole : context.buffer.length = 64) (text : List UInt8)
    (small : text.length < 2 ^ 61) :
    lsha1 context text =
      if text.length < 2 ^ 29 then sha1 text else hashWith (8 * text.length + 2 ^ 32) text := by
  have absorbs := (absorbs_sha1Init context whole).update text
  have bits := bits_sha1Update (sha1Init context) text small
  have start : (sha1Init context).bits = 0 := rfl
  have zero : (sha1Init context).count0.toNat = 0 := rfl
  rw [List.nil_append] at absorbs
  rw [lsha1, absorbs.final, ← Sha1Ctx.bits, bits, hashWith_mod, start, zero, Nat.zero_add,
    Nat.zero_add]
  by_cases short : text.length < 2 ^ 29
  · rw [if_neg (by omega), if_pos short, Nat.add_zero, sha1]
  · rw [if_pos (by omega), if_neg short]

theorem lsha1_abc :
    lsha1 ⟨initial, 0, 0, malloc 64⟩ [0x61, 0x62, 0x63] = sha1 [0x61, 0x62, 0x63] :=
  (lsha1_eq ⟨initial, 0, 0, malloc 64⟩ (length_malloc 64) [0x61, 0x62, 0x63] (by decide)).trans
    (if_pos (by decide))

theorem sha1Final_parts (context : Sha1Ctx) (whole : context.buffer.length = 64)
    (parts : List (List UInt8)) (small : ∀ part ∈ parts, part.length < 2 ^ 29) :
    sha1Final (parts.foldl sha1Update (sha1Init context)) = sha1 parts.flatten := by
  have all : Absorbs (parts.foldl sha1Update (sha1Init context)) parts.flatten ∧
      (parts.foldl sha1Update (sha1Init context)).bits = 8 * parts.flatten.length % 2 ^ 64 := by
    induction parts using List.reverseRecOn with
    | nil => exact ⟨absorbs_sha1Init context whole, rfl⟩
    | append_singleton parts part ih =>
      obtain ⟨absorbs, bits⟩ := ih fun earlier inside =>
        small earlier (List.mem_append_left _ inside)
      have last := small part (List.mem_append_right _ (List.mem_singleton_self part))
      rw [List.foldl_append, List.flatten_append, List.foldl_cons, List.foldl_nil,
        List.flatten_singleton, List.length_append, bits_sha1Update_of_lt _ _ last, bits]
      exact ⟨absorbs.update part, by omega⟩
  rw [all.1.final, ← Sha1Ctx.bits, all.2, hashWith_mod, sha1]

theorem length_sha1 (message : List UInt8) : (sha1 message).length = 20 := by
  rw [sha1, hashWith, digest, Chain.words]
  simp [bigEndian]

def storeUint32 (n : UInt32) : List UInt8 :=
  [n.toUInt8, (n >>> 8).toUInt8, (n >>> 16).toUInt8, (n >>> 24).toUInt8]

def xorKey (key : List UInt8) (xor : UInt32) : List UInt8 :=
  (List.range 16).flatMap fun i => storeUint32 (loadUint32 key (4 * i) ^^^ xor)

def lhmacSha1 (ctx ctx1 ctx2 : Sha1Ctx) (key text : List UInt8) : List UInt8 :=
  let rkey := malloc 64
  let rkey :=
    if key.length > 64 then memcpy rkey 0 (sha1Final (sha1Update (sha1Init ctx) key))
    else memcpy rkey 0 key
  let rkey := xorKey rkey 0x5c5c5c5c
  let ctx1 := sha1Update (sha1Init ctx1) rkey
  let rkey := xorKey rkey (0x5c5c5c5c ^^^ 0x36363636)
  let ctx2 := sha1Update (sha1Init ctx2) rkey
  let ctx2 := sha1Update ctx2 text
  let digest2 := sha1Final ctx2
  sha1Final (sha1Update ctx1 digest2)

def Secure.hmac (key text : List UInt8) : List UInt8 :=
  let key := if key.length > 64 then sha1 key else key
  let block := key ++ List.replicate (64 - key.length) 0
  sha1 (block.map (· ^^^ 0x5c) ++ sha1 (block.map (· ^^^ 0x36) ++ text))

theorem storeUint32_xor (key : List UInt8) (i : Nat) (m : UInt8) :
    storeUint32 (loadUint32 key i ^^^ loadUint32 [m, m, m, m] 0) =
      [key.getD i 0 ^^^ m, key.getD (i + 1) 0 ^^^ m, key.getD (i + 2) 0 ^^^ m,
        key.getD (i + 3) 0 ^^^ m] := by
  unfold storeUint32 loadUint32
  generalize key.getD i 0 = k0
  generalize key.getD (i + 1) 0 = k1
  generalize key.getD (i + 2) 0 = k2
  generalize key.getD (i + 3) 0 = k3
  simp only [List.getD_cons_zero, List.getD_cons_succ, List.cons.injEq, ← UInt8.toBitVec_inj]
  refine ⟨?_, ?_, ?_, ?_, trivial⟩
  · ext j hj
    simp
  · ext j hj
    simp
    interval_cases j <;> simp
  · ext j hj
    simp
    interval_cases j <;> simp
  · ext j hj
    simp
    interval_cases j <;> simp

theorem xorKey_eq (key : List UInt8) (whole : key.length = 64) (m : UInt8) :
    xorKey key (loadUint32 [m, m, m, m] 0) = key.map (· ^^^ m) := by
  have fours (f : Nat → UInt8) (n : Nat) :
      (List.range n).flatMap (fun i => [f (4 * i), f (4 * i + 1), f (4 * i + 2), f (4 * i + 3)]) =
        (List.range (4 * n)).map f := by
    induction n with
    | zero => rfl
    | succ n ih =>
      rw [List.range_succ, List.flatMap_append, ih, Nat.mul_succ, List.range_succ, List.range_succ,
        List.range_succ, List.range_succ]
      simp
  have bytes : (List.range 64).map (fun i => key.getD i 0 ^^^ m) = key.map (· ^^^ m) := by
    apply List.ext_getElem
    · rw [List.length_map, List.length_map, List.length_range, whole]
    · intro i inside _
      have here : i < key.length := by
        rw [whole]
        simpa using inside
      simp [List.getD_eq_getElem?_getD, here]
  rw [xorKey]
  simp only [storeUint32_xor]
  rw [fours fun i => key.getD i 0 ^^^ m]
  exact bytes

theorem xorKey_xorKey (key : List UInt8) (whole : key.length = 64) :
    xorKey (xorKey key 0x5c5c5c5c) (0x5c5c5c5c ^^^ 0x36363636) = key.map (· ^^^ 0x36) := by
  have outer : xorKey key 0x5c5c5c5c = key.map (· ^^^ 0x5c) := xorKey_eq key whole 0x5c
  have both : xorKey (key.map (· ^^^ 0x5c)) (0x5c5c5c5c ^^^ 0x36363636) =
      (key.map (· ^^^ 0x5c)).map (· ^^^ 0x6a) :=
    xorKey_eq _ (by rw [List.length_map, whole]) 0x6a
  rw [outer, both, List.map_map]
  congr 1
  funext byte
  exact UInt8.xor_assoc byte 0x5c 0x6a

theorem memcpy_malloc (size : Nat) (key : List UInt8) :
    memcpy (malloc size) 0 key = key ++ List.replicate (size - key.length) 0 := by
  rw [memcpy, malloc, List.take_zero, List.nil_append, Nat.zero_add, List.drop_replicate]

theorem sha1Final_pair (context : Sha1Ctx) (whole : context.buffer.length = 64)
    (first second : List UInt8) (small : first.length < 2 ^ 29) (short : second.length < 2 ^ 29) :
    sha1Final (sha1Update (sha1Update (sha1Init context) first) second) = sha1 (first ++ second) := by
  have parts := sha1Final_parts context whole [first, second] (by
    intro part inside
    rw [List.mem_pair] at inside
    obtain rfl | rfl := inside
    · exact small
    · exact short)
  rwa [List.flatten_cons, List.flatten_singleton] at parts

theorem lhmacSha1_eq (ctx ctx1 ctx2 : Sha1Ctx) (whole : ctx.buffer.length = 64)
    (whole1 : ctx1.buffer.length = 64) (whole2 : ctx2.buffer.length = 64) (key text : List UInt8)
    (smallKey : key.length < 2 ^ 29) (smallText : text.length < 2 ^ 29) :
    lhmacSha1 ctx ctx1 ctx2 key text = Secure.hmac key text := by
  have hashed : sha1Final (sha1Update (sha1Init ctx) key) = sha1 key := by
    have parts := sha1Final_parts ctx whole [key] (by simpa using smallKey)
    rwa [List.flatten_singleton] at parts
  have rkey : (if key.length > 64 then memcpy (malloc 64) 0 (sha1Final (sha1Update (sha1Init ctx) key))
      else memcpy (malloc 64) 0 key) =
      (if key.length > 64 then sha1 key else key) ++
        List.replicate (64 - (if key.length > 64 then sha1 key else key).length) 0 := by
    rw [hashed]
    split <;> exact memcpy_malloc 64 _
  have fits : (if key.length > 64 then sha1 key else key).length ≤ 64 := by
    split
    · rw [length_sha1]
      decide
    · omega
  unfold lhmacSha1 Secure.hmac
  dsimp only
  rw [rkey]
  generalize (if key.length > 64 then sha1 key else key) = block at fits ⊢
  have length : (block ++ List.replicate (64 - block.length) 0).length = 64 := by
    rw [List.length_append, List.length_replicate]
    omega
  generalize block ++ List.replicate (64 - block.length) 0 = key at length ⊢
  have outer : xorKey key 0x5c5c5c5c = key.map (· ^^^ 0x5c) := xorKey_eq key length 0x5c
  have padded (m : UInt8) : (key.map (· ^^^ m)).length < 2 ^ 29 := by
    rw [List.length_map, length]
    decide
  rw [xorKey_xorKey key length, outer, sha1Final_pair ctx2 whole2 _ _ (padded 0x36) smallText,
    sha1Final_pair ctx1 whole1 _ _ (padded 0x5c) (by rw [length_sha1]; decide)]

theorem lhmacSha1_key :
    lhmacSha1 ⟨initial, 0, 0, malloc 64⟩ ⟨initial, 0, 0, malloc 64⟩ ⟨initial, 0, 0, malloc 64⟩
      [0x6b] [0x61, 0x62, 0x63] = Secure.hmac [0x6b] [0x61, 0x62, 0x63] :=
  lhmacSha1_eq _ _ _ (length_malloc 64) (length_malloc 64) (length_malloc 64) _ _ (by decide)
    (by decide)

end Pskynet.Crypt
