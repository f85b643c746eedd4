import Pskynet.Crypt.DesBlock

set_option autoImplicit false

namespace Pskynet.Crypt

open Memory

def mapBlocks (f : List UInt8 → List UInt8) : Nat → List UInt8 → List UInt8
  | 0, _ => []
  | n + 1, bytes => f (bytes.take 8) ++ mapBlocks f n (bytes.drop 8)

theorem length_mapBlocks {f : List UInt8 → List UInt8} (eight : ∀ block, (f block).length = 8)
    (n : Nat) (bytes : List UInt8) : (mapBlocks f n bytes).length = 8 * n := by
  induction n generalizing bytes with
  | zero => rfl
  | succ n ih =>
    rw [mapBlocks, List.length_append, eight, ih]
    ring

theorem mapBlocks_mapBlocks {f g : List UInt8 → List UInt8}
    (eight : ∀ block, (f block).length = 8) (undo : ∀ block, block.length = 8 → g (f block) = block)
    (n : Nat) (bytes behind : List UInt8) (whole : 8 * n ≤ bytes.length) :
    mapBlocks g n (mapBlocks f n bytes ++ behind) = bytes.take (8 * n) := by
  induction n generalizing bytes with
  | zero => rfl
  | succ n ih =>
    have front : (bytes.take 8).length = 8 := by
      rw [List.length_take]
      omega
    have later := ih (bytes.drop 8) (by rw [List.length_drop]; omega)
    rw [mapBlocks, mapBlocks, List.append_assoc, List.take_left' (eight _), List.drop_left' (eight _),
      undo _ front, later, show 8 * (n + 1) = 8 + 8 * n by ring, List.take_add]

theorem mapBlocks_left (f : List UInt8 → List UInt8) (n : Nat) (bytes more : List UInt8)
    (whole : 8 * n ≤ bytes.length) : mapBlocks f n (bytes ++ more) = mapBlocks f n bytes := by
  induction n generalizing bytes with
  | zero => rfl
  | succ n ih =>
    rw [mapBlocks, mapBlocks, List.take_append_of_le_length (by omega),
      List.drop_append_of_le_length (by omega), ih _ (by rw [List.length_drop]; omega)]

theorem mapBlocks_append (f : List UInt8 → List UInt8) (n : Nat) (bytes last : List UInt8)
    (whole : bytes.length = 8 * n) (eight : last.length = 8) :
    mapBlocks f (n + 1) (bytes ++ last) = mapBlocks f n bytes ++ f last := by
  induction n generalizing bytes with
  | zero =>
    obtain rfl := List.eq_nil_of_length_eq_zero whole
    simp [mapBlocks, List.take_of_length_le eight.le]
  | succ n ih =>
    have front : 8 ≤ bytes.length := by omega
    have later := ih (bytes.drop 8) (by rw [List.length_drop]; omega)
    rw [mapBlocks, List.take_append_of_le_length front, List.drop_append_of_le_length front, later,
      mapBlocks, List.append_assoc]

theorem cryptLoop_eq (sk : List UInt32) (text : List UInt8) (last n i : Nat) (buffer : List UInt8)
    (done : last ≤ i + 8 * n) (more : i + 8 * n < last + 8) (room : i + 8 * n ≤ buffer.length) :
    ∃ later, cryptLoop sk text last i buffer = (i + 8 * n, later) ∧
      later.length = buffer.length ∧
      later.take (i + 8 * n) = buffer.take i ++ mapBlocks (desCrypt sk) n (text.drop i) := by
  induction n generalizing i buffer with
  | zero =>
    refine ⟨buffer, ?_, rfl, ?_⟩
    · rw [cryptLoop, if_neg (by omega)]
      rfl
    · rw [mapBlocks, List.append_nil]
      rfl
  | succ n ih =>
    have eight := length_desCrypt sk ((text.drop i).take 8)
    have fits : i + (desCrypt sk ((text.drop i).take 8)).length ≤ buffer.length := by omega
    have length := length_memcpy buffer _ i fits
    have front := take_memcpy buffer _ i fits
    obtain ⟨later, ran, same, written⟩ := ih (i + 8)
      (memcpy buffer i (desCrypt sk ((text.drop i).take 8))) (by omega) (by omega) (by omega)
    have place : i + 8 + 8 * n = i + 8 * (n + 1) := by ring
    rw [place] at ran written
    refine ⟨later, ?_, by rw [same, length], ?_⟩
    · rw [cryptLoop, if_pos (by omega), ran]
    · rw [eight] at front
      rw [written, front, mapBlocks, List.append_assoc, List.drop_drop]

theorem tailBlock_eq (text : List UInt8) (i : Nat) (inside : i ≤ text.length)
    (short : text.length < i + 8) :
    tailBlock text i = text.drop i ++ 0x80 :: List.replicate (i + 7 - text.length) 0 := by
  refine List.ext_getElem ?_ fun j first second => ?_
  · simp [tailBlock]
    omega
  · simp only [tailBlock, List.getElem_map, List.getElem_range]
    by_cases before : j < text.length - i
    · rw [if_pos before, List.getElem_append_left (by rw [List.length_drop]; exact before),
        List.getElem_drop, List.getD_eq_getElem _ _ (by omega)]
    · rw [if_neg before, List.getElem_append_right (by rw [List.length_drop]; omega)]
      simp only [List.length_drop]
      by_cases here : j = text.length - i
      · rw [if_pos here]
        simp [here]
      · obtain ⟨k, distance⟩ : ∃ k, j - (text.length - i) = k + 1 :=
          ⟨j - (text.length - i) - 1, by omega⟩
        rw [if_neg here]
        simp [distance]

theorem length_desBlock (size : Nat) : size ≤ (desBlock size).length := by
  unfold desBlock
  rw [length_malloc]
  split_ifs <;> omega

def padded (text : List UInt8) : List UInt8 :=
  text ++ 0x80 :: List.replicate (7 - text.length % 8) 0

theorem length_padded (text : List UInt8) : (padded text).length = 8 * (text.length / 8 + 1) := by
  simp [padded]
  omega

theorem desencode_eq (key text : List UInt8) (eight : key.length = 8)
    (small : text.length < 2 ^ 31 - 8) :
    desencode key text =
      .ok (mapBlocks (desCrypt (desMainKs key)) (text.length / 8 + 1) (padded text)) := by
  have int : (Int32.ofNat text.length).toInt = text.length := Int32.toInt_ofNat_of_lt (by omega)
  have blocks := length_desBlock ((text.length + 8) / 8 * 8)
  obtain ⟨buffer, ran, length, written⟩ := cryptLoop_eq (desMainKs key) text (text.length - 7)
    (text.length / 8) 0 (desBlock ((text.length + 8) / 8 * 8)) (by omega) (by omega) (by omega)
  rw [Nat.zero_add] at ran written
  have last : (((text.length : Nat) : Int) - 7).toNat = text.length - 7 := by omega
  have crypted := length_desCrypt (desMainKs key) (tailBlock text (8 * (text.length / 8)))
  have front := take_memcpy buffer _ (8 * (text.length / 8)) (by rw [crypted, length]; omega)
  have tail := tailBlock_eq text (8 * (text.length / 8)) (by omega) (by omega)
  have size : (tailBlock text (8 * (text.length / 8))).length = 8 := by simp [tailBlock]
  have zeros : 8 * (text.length / 8) + 7 - text.length = 7 - text.length % 8 := by omega
  have split : padded text =
      text.take (8 * (text.length / 8)) ++ tailBlock text (8 * (text.length / 8)) := by
    rw [tail, zeros, ← List.append_assoc, List.take_append_drop]
    rfl
  have whole : (text.take (8 * (text.length / 8))).length = 8 * (text.length / 8) := by
    rw [List.length_take]
    omega
  have same : mapBlocks (desCrypt (desMainKs key)) (text.length / 8)
      (text.take (8 * (text.length / 8))) =
        mapBlocks (desCrypt (desMainKs key)) (text.length / 8) text := by
    have left := mapBlocks_left (desCrypt (desMainKs key)) (text.length / 8)
      (text.take (8 * (text.length / 8))) (text.drop (8 * (text.length / 8))) whole.ge
    rw [List.take_append_drop] at left
    exact left.symm
  have chunk : (text.length + 8) / 8 * 8 = 8 * (text.length / 8) + 8 := by omega
  rw [crypted, written, List.take_zero, List.nil_append, List.drop_zero] at front
  unfold desencode desKey
  rw [if_neg (not_not.mpr eight)]
  show Except.ok (List.take _ (memcpy
    (cryptLoop (desMainKs key) text ((Int32.ofNat text.length).toInt - 7).toNat 0
      (desBlock ((text.length + 8) / 8 * 8))).2
    (cryptLoop (desMainKs key) text ((Int32.ofNat text.length).toInt - 7).toNat 0
      (desBlock ((text.length + 8) / 8 * 8))).1 (desCrypt (desMainKs key) (tailBlock text
    (cryptLoop (desMainKs key) text ((Int32.ofNat text.length).toInt - 7).toNat 0
      (desBlock ((text.length + 8) / 8 * 8))).1)))) = _
  rw [int, last, ran, chunk, front, split, mapBlocks_append _ _ _ _ whole size, same]

theorem paddingLoop_eq (buffer front : List UInt8) (size zeros : Nat)
    (ends : buffer.take size = front ++ 0x80 :: List.replicate zeros 0) (few : zeros < 8)
    (least : 8 ≤ size) (whole : size ≤ buffer.length) :
    paddingLoop buffer size 8 1 = .ok (zeros + 1) := by
  have length : size = front.length + 1 + zeros := by
    have both := congrArg List.length ends
    simp [List.length_take] at both
    omega
  have byte (i : Nat) (inside : i < size) :
      buffer.getD i 0 = (front ++ 0x80 :: List.replicate zeros 0).getD i 0 := by
    rw [← ends, List.getD_eq_getElem _ _ (by omega), List.getD_eq_getElem _ _ (by
      rw [List.length_take]; omega), List.getElem_take]
  have zero (i : Nat) (behind : front.length < i) (inside : i < size) : buffer.getD i 0 = 0 := by
    obtain ⟨k, distance⟩ : ∃ k, i = front.length + (k + 1) := ⟨i - front.length - 1, by omega⟩
    rw [byte i inside, distance, List.getD_append_right _ _ _ _ (by omega), Nat.add_sub_cancel_left,
      List.getD_cons_succ]
    simp
  have mark : buffer.getD front.length 0 = 0x80 := by
    rw [byte _ (by omega), List.getD_append_right _ _ _ _ (le_refl _), Nat.sub_self,
      List.getD_cons_zero]
  -- The zeros that were seen are `8 - turns`.
  have seen (k : Nat) (bound : k ≤ zeros) :
      paddingLoop buffer size 8 1 = paddingLoop buffer size (8 - k) (1 + k) := by
    induction k with
    | zero => rfl
    | succ k ih =>
      obtain ⟨turns, left⟩ : ∃ turns, 8 - k = turns + 1 := ⟨7 - k, by omega⟩
      have here := zero (size - 8 + turns) (by omega) (by omega)
      rw [ih (by omega), left, paddingLoop]
      rw [if_pos here, show 8 - (k + 1) = turns by omega, Nat.add_assoc]
  obtain ⟨turns, left⟩ : ∃ turns, 8 - zeros = turns + 1 := ⟨7 - zeros, by omega⟩
  have here : buffer.getD (size - 8 + turns) 0 = 0x80 := by
    rw [← mark]
    congr 1
    omega
  rw [seen zeros (le_refl _), left, paddingLoop]
  rw [if_neg (by rw [here]; decide), if_pos here, Nat.add_comm]

def decrypted (key cipher : List UInt8) : List UInt8 :=
  mapBlocks (desCrypt (decodeKeys (desMainKs key))) (cipher.length / 8) cipher

theorem length_decrypted (key : List UInt8) {cipher : List UInt8} (whole : cipher.length % 8 = 0) :
    (decrypted key cipher).length = cipher.length := by
  rw [decrypted, length_mapBlocks (length_desCrypt _)]
  omega

theorem desdecode_loops (key cipher : List UInt8) (eight : key.length = 8)
    (whole : cipher.length % 8 = 0) (filled : cipher ≠ []) (small : cipher.length < 2 ^ 31) :
    ∃ buffer, buffer.take cipher.length = decrypted key cipher ∧
      cipher.length ≤ buffer.length ∧
      desdecode key cipher = (paddingLoop buffer cipher.length 8 1 >>= fun padding =>
        if padding > 8 then .error (.error "Invalid des crypt text")
        else .ok ((decrypted key cipher).take (cipher.length - padding))) := by
  have positive := List.length_pos_iff.mpr filled
  have blocks := length_desBlock cipher.length
  obtain ⟨buffer, ran, length, written⟩ := cryptLoop_eq (decodeKeys (desMainKs key)) cipher
    cipher.length (cipher.length / 8) 0 (desBlock cipher.length) (by omega) (by omega) (by omega)
  have all : 8 * (cipher.length / 8) = cipher.length := by omega
  rw [Nat.zero_add, all, List.take_zero, List.nil_append, List.drop_zero] at written
  rw [Nat.zero_add, all] at ran
  have text : buffer.take cipher.length = decrypted key cipher := written
  refine ⟨buffer, text, by omega, ?_⟩
  unfold desdecode desKey
  rw [if_neg (not_not.mpr eight)]
  show (if cipher.length % 8 ≠ 0 ∨ cipher.length = 0 then _ else
    if 2 ^ 31 ≤ cipher.length then _ else
    (paddingLoop (cryptLoop (decodeKeys (desMainKs key)) cipher cipher.length 0
      (desBlock cipher.length)).2 cipher.length 8 1 >>= fun padding =>
        if padding > 8 then _ else Except.ok (List.take (cipher.length - padding)
          (cryptLoop (decodeKeys (desMainKs key)) cipher cipher.length 0
            (desBlock cipher.length)).2))) = _
  rw [if_neg (by omega), if_neg (by omega), ran]
  congr 1
  funext padding
  rw [← text, List.take_take, Nat.min_eq_left (Nat.sub_le _ _)]

theorem desdecode_eq (key text : List UInt8) (eight : key.length = 8)
    (small : text.length < 2 ^ 31 - 8) :
    desdecode key (mapBlocks (desCrypt (desMainKs key)) (text.length / 8 + 1) (padded text)) =
      .ok text := by
  have size := length_mapBlocks (length_desCrypt (desMainKs key)) (text.length / 8 + 1) (padded text)
  generalize crypted : mapBlocks (desCrypt (desMainKs key)) (text.length / 8 + 1) (padded text) =
    cipher at size
  have filled : cipher ≠ [] := List.ne_nil_of_length_pos (by omega)
  obtain ⟨buffer, written, room, ran⟩ :=
    desdecode_loops key cipher eight (by omega) filled (by omega)
  have restored := mapBlocks_mapBlocks (length_desCrypt (desMainKs key))
    (desCrypt_desCrypt (desMainKs key)) (text.length / 8 + 1) (padded text) []
    (length_padded text).ge
  rw [List.append_nil, crypted, List.take_of_length_le (length_padded text).le,
    show text.length / 8 + 1 = cipher.length / 8 by omega] at restored
  have restored : decrypted key cipher = padded text := restored
  rw [restored] at written ran
  have padding := paddingLoop_eq buffer text cipher.length (7 - text.length % 8) written (by omega)
    (by omega) room
  rw [ran, padding]
  show (if 7 - text.length % 8 + 1 > 8 then _ else Except.ok _) = _
  rw [if_neg (by omega), show cipher.length - (7 - text.length % 8 + 1) = text.length by omega,
    padded, List.take_left]

theorem desdecode_desencode (key text : List UInt8) (eight : key.length = 8)
    (small : text.length < 2 ^ 31 - 8) :
    (desencode key text).bind (desdecode key) = .ok text := by
  rw [desencode_eq key text eight small]
  exact desdecode_eq key text eight small

theorem desdecode_desencode_marked :
    (desencode [1, 2, 3, 4, 5, 6, 7, 8] [7, 0x80, 0]).bind (desdecode [1, 2, 3, 4, 5, 6, 7, 8]) =
      .ok [7, 0x80, 0] :=
  desdecode_desencode _ _ rfl (by simp)

end Pskynet.Crypt
