import Pskynet.Crypt.DesText

set_option autoImplicit false

namespace Pskynet.Crypt

open Memory

-- The last block ends with the byte 0x80 and zeros, behind `front`.
def PaddedText (text front : List UInt8) : Prop :=
  ∃ zeros < 8, text = front ++ 0x80 :: List.replicate zeros 0

def DecodesPadding (key cipher : List UInt8) : Prop :=
  (∀ front, PaddedText (decrypted key cipher) front → desdecode key cipher = .ok front) ∧
    ((∀ front, ¬PaddedText (decrypted key cipher) front) →
      ∃ message, desdecode key cipher = .error (.error message))

theorem paddingLoop_unpadded (buffer text : List UInt8) (size turns padding : Nat)
    (content : buffer.take size = text) (room : size ≤ buffer.length) (least : 8 ≤ size)
    (few : turns ≤ 8) (zeros : text.drop (size - 8 + turns) = List.replicate (8 - turns) 0)
    (unpadded : ∀ front, ¬PaddedText text front) :
    (text.drop (size - 8) ≠ List.replicate 8 0 ∧
      paddingLoop buffer size turns padding = .error (.error "Invalid des crypt text")) ∨
      (text.drop (size - 8) = List.replicate 8 0 ∧ paddingLoop buffer size turns padding =
        if size = 8 then .error .outside else .ok (padding + turns)) := by
  induction turns generalizing padding with
  | zero => exact .inr ⟨zeros, rfl⟩
  | succ turns ih =>
    have length : text.length = size := by
      rw [← content, List.length_take, Nat.min_eq_left room]
    have inside : size - 8 + turns < text.length := by omega
    have byte : buffer.getD (size - 8 + turns) 0 = text.get ⟨size - 8 + turns, inside⟩ := by
      rw [List.getD_eq_getElem _ _ (by omega), List.get_eq_getElem]
      simp only [← content, List.getElem_take]
    have cut : text.drop (size - 8 + turns) =
        text.get ⟨size - 8 + turns, inside⟩ :: List.replicate (8 - (turns + 1)) 0 := by
      rw [List.drop_eq_getElem_cons inside, ← zeros]
      rfl
    generalize text.get ⟨size - 8 + turns, inside⟩ = last at byte cut
    rw [paddingLoop, byte]
    by_cases zero : last = 0
    · subst zero
      rw [if_pos rfl]
      have later : text.drop (size - 8 + turns) = List.replicate (8 - turns) 0 := by
        rw [cut, show 8 - turns = 8 - (turns + 1) + 1 by omega, List.replicate_succ]
      rcases ih (padding + 1) (by omega) later with wrong | ⟨all, ends⟩
      · exact .inl wrong
      · refine .inr ⟨all, ?_⟩
        rw [ends, show padding + 1 + turns = padding + (turns + 1) by omega]
    · rw [if_neg zero]
      have other : last ≠ 0x80 := by
        rintro rfl
        refine unpadded (text.take (size - 8 + turns)) ⟨8 - (turns + 1), by omega, ?_⟩
        rw [← cut, List.take_append_drop]
      rw [if_neg other]
      refine .inl ⟨fun all => zero ?_, rfl⟩
      rw [← List.drop_drop, all, List.drop_replicate] at cut
      exact List.eq_of_mem_replicate (cut ▸ List.mem_cons_self)

theorem padded_least {text front : List UInt8} (padded : PaddedText text front) :
    text.drop (text.length - 8) ≠ List.replicate 8 0 := by
  obtain ⟨zeros, few, rfl⟩ := padded
  intro all
  have mark : (0x80 : UInt8) ∈ List.replicate 8 0 := by
    rw [← all, List.drop_append]
    refine List.mem_append_right _ ?_
    have start : (front ++ (0x80 : UInt8) :: List.replicate zeros 0).length - 8 - front.length =
        0 := by
      simp only [List.length_append, List.length_cons, List.length_replicate]
      omega
    rw [start]
    exact List.mem_cons_self
  exact absurd (List.eq_of_mem_replicate mark) (by decide)

theorem desdecode_padded (key cipher front : List UInt8) (eight : key.length = 8)
    (whole : cipher.length % 8 = 0) (filled : cipher ≠ []) (small : cipher.length < 2 ^ 31)
    (padded : PaddedText (decrypted key cipher) front) : desdecode key cipher = .ok front := by
  have length := length_decrypted key whole
  have positive := List.length_pos_iff.mpr filled
  obtain ⟨buffer, content, room, ran⟩ := desdecode_loops key cipher eight whole filled small
  obtain ⟨zeros, few, parts⟩ := padded
  have padding := paddingLoop_eq buffer front cipher.length zeros (content.trans parts) few
    (by omega) room
  rw [parts, List.length_append, List.length_cons, List.length_replicate] at length
  rw [ran, padding]
  show (if zeros + 1 > 8 then _ else Except.ok _) = _
  rw [if_neg (by omega), parts, show cipher.length - (zeros + 1) = front.length by omega,
    List.take_left]

theorem desdecode_unpadded (key cipher : List UInt8) (eight : key.length = 8)
    (whole : cipher.length % 8 = 0) (filled : cipher ≠ []) (small : cipher.length < 2 ^ 31)
    (unpadded : ∀ front, ¬PaddedText (decrypted key cipher) front) :
    desdecode key cipher =
      if cipher.length = 8 ∧ decrypted key cipher = List.replicate 8 0 then .error .outside
      else .error (.error "Invalid des crypt text") := by
  have length := length_decrypted key whole
  have positive := List.length_pos_iff.mpr filled
  obtain ⟨buffer, content, room, ran⟩ := desdecode_loops key cipher eight whole filled small
  rw [ran]
  rcases paddingLoop_unpadded buffer _ cipher.length 8 1 content room (by omega) le_rfl
    (by rw [List.drop_eq_nil_of_le (by omega)]; rfl) unpadded with ⟨nonzero, wrong⟩ | ⟨zeros, ends⟩
  · have other : ¬(cipher.length = 8 ∧ decrypted key cipher = List.replicate 8 0) := by
      rintro ⟨one, all⟩
      rw [one, Nat.sub_self, List.drop_zero] at nonzero
      exact nonzero all
    rw [wrong, if_neg other]
    rfl
  · rw [ends]
    by_cases one : cipher.length = 8
    · rw [one, Nat.sub_self, List.drop_zero] at zeros
      rw [if_pos one, if_pos ⟨one, zeros⟩]
      rfl
    · rw [if_neg one, if_neg fun both => one both.1]
      rfl

theorem desdecode_padding_iff (key cipher : List UInt8) (eight : key.length = 8)
    (whole : cipher.length % 8 = 0) (filled : cipher ≠ []) :
    DecodesPadding key cipher ↔ cipher.length < 2 ^ 31 ∧
      ¬(cipher.length = 8 ∧ decrypted key cipher = List.replicate 8 0) := by
  have positive := List.length_pos_iff.mpr filled
  have length := length_decrypted key whole
  have some_wrong (fault : DesFault) (ran : desdecode key cipher = .error fault)
      (other : ∀ message, fault ≠ .error message) : ¬DecodesPadding key cipher := by
    rintro ⟨padded, unpadded⟩
    by_cases some_ : ∃ front, PaddedText (decrypted key cipher) front
    · obtain ⟨front, is⟩ := some_
      exact nomatch ran.symm.trans (padded front is)
    · obtain ⟨message, same⟩ := unpadded fun front is => some_ ⟨front, is⟩
      exact other message (Except.error.inj (ran.symm.trans same))
  rcases Nat.lt_or_ge cipher.length (2 ^ 31) with small | large
  · by_cases bad : cipher.length = 8 ∧ decrypted key cipher = List.replicate 8 0
    · refine iff_of_false (some_wrong .outside ?_ fun _ => nofun) fun both => both.2 bad
      have unpadded : ∀ front, ¬PaddedText (decrypted key cipher) front := by
        intro front padded
        refine padded_least padded ?_
        rw [length, bad.1, Nat.sub_self, List.drop_zero, bad.2]
      rw [desdecode_unpadded key cipher eight whole filled small unpadded, if_pos bad]
    · refine iff_of_true ⟨?_, fun unpadded => ?_⟩ ⟨small, bad⟩
      · exact fun front => desdecode_padded key cipher front eight whole filled small
      · rw [desdecode_unpadded key cipher eight whole filled small unpadded, if_neg bad]
        exact ⟨_, rfl⟩
  · refine iff_of_false (some_wrong .overflow ?_ fun _ => nofun) (by omega)
    unfold desdecode desKey
    rw [if_neg (not_not.mpr eight)]
    show (if cipher.length % 8 ≠ 0 ∨ cipher.length = 0 then _ else
      if 2 ^ 31 ≤ cipher.length then _ else _) = _
    rw [if_neg (by omega), if_pos large]

theorem desdecode_padding_block :
    DecodesPadding [1, 2, 3, 4, 5, 6, 7, 8] [1, 2, 3, 4, 5, 6, 7, 8] ↔
      [(1 : UInt8), 2, 3, 4, 5, 6, 7, 8].length < 2 ^ 31 ∧
      ¬([(1 : UInt8), 2, 3, 4, 5, 6, 7, 8].length = 8 ∧
        decrypted [1, 2, 3, 4, 5, 6, 7, 8] [1, 2, 3, 4, 5, 6, 7, 8] = List.replicate 8 0) :=
  desdecode_padding_iff _ _ rfl rfl (by decide)

theorem zeros_outside : ∃ cipher,
    cipher = desCrypt (desMainKs [1, 2, 3, 4, 5, 6, 7, 8]) (List.replicate 8 0) ∧
      cipher.length = 8 ∧ desdecode [1, 2, 3, 4, 5, 6, 7, 8] cipher = .error .outside ∧
      ¬DecodesPadding [1, 2, 3, 4, 5, 6, 7, 8] cipher := by
  have eight := length_desCrypt (desMainKs [1, 2, 3, 4, 5, 6, 7, 8]) (List.replicate 8 0)
  have back := mapBlocks_mapBlocks (length_desCrypt (desMainKs [1, 2, 3, 4, 5, 6, 7, 8]))
    (desCrypt_desCrypt (desMainKs [1, 2, 3, 4, 5, 6, 7, 8])) 1 (List.replicate 8 0) [] (by simp)
  have once : mapBlocks (desCrypt (desMainKs [1, 2, 3, 4, 5, 6, 7, 8])) 1 (List.replicate 8 0) =
      desCrypt (desMainKs [1, 2, 3, 4, 5, 6, 7, 8]) (List.replicate 8 0) := List.append_nil _
  rw [once, List.append_nil] at back
  generalize desCrypt (desMainKs [1, 2, 3, 4, 5, 6, 7, 8]) (List.replicate 8 0) = cipher at eight back
  have zeros : decrypted [1, 2, 3, 4, 5, 6, 7, 8] cipher = List.replicate 8 0 := by
    rw [decrypted, eight, back]
    rfl
  have unpadded : ∀ front, ¬PaddedText (decrypted [1, 2, 3, 4, 5, 6, 7, 8] cipher) front := by
    intro front padded
    refine padded_least padded ?_
    rw [zeros]
    rfl
  have filled : cipher ≠ [] := List.ne_nil_of_length_pos (by omega)
  have ran := desdecode_unpadded [1, 2, 3, 4, 5, 6, 7, 8] cipher rfl (by omega) filled (by omega)
    unpadded
  rw [if_pos ⟨eight, zeros⟩] at ran
  refine ⟨cipher, rfl, eight, ran, ?_⟩
  rintro ⟨-, refused⟩
  obtain ⟨message, same⟩ := refused unpadded
  rw [ran] at same
  cases same

end Pskynet.Crypt
