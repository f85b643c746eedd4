import Pskynet.Crypt.Base64

set_option autoImplicit false

namespace Pskynet.Crypt

open CInt

theorem readGroup_end {i i' : Nat} {text rest : List UInt8} {c c' : List Int}
    (read : readGroup i text c = .ok (c', i', rest)) (start : i < 2 ^ 31) :
    i' < 2 ^ 31 ∧ i' + rest.length = i + text.length := by
  induction text generalizing i c with
  | nil =>
    unfold readGroup at read
    split_ifs at read with full
    simp only [Except.ok.injEq, Prod.mk.injEq] at read
    obtain ⟨rfl, rfl, rfl⟩ := read
    exact ⟨start, rfl⟩
  | cons first text ih =>
    unfold readGroup at read
    split_ifs at read with full
    · simp only [Except.ok.injEq, Prod.mk.injEq] at read
      obtain ⟨rfl, rfl, rfl⟩ := read
      exact ⟨start, rfl⟩
    · cases next : arith ((i : Int) + 1) with
      | none => simp only [next, reduceCtorEq] at read
      | some after =>
        simp only [next] at read
        have small : i + 1 < 2 ^ 31 := by
          obtain ⟨rfl, -, high⟩ := arith_some next
          omega
        rw [List.length_cons]
        split_ifs at read with skipped
        all_goals
          have later := ih read small
          omega

theorem readGroup_full (i : Nat) (text : List UInt8) {c : List Int} (full : c.length = 4) :
    readGroup i text c = .ok (c, i, text) := by
  unfold readGroup
  rw [if_pos full]

theorem readGroup_cons (i : Nat) (first : UInt8) (rest : List UInt8) {c : List Int}
    (short : c.length ≠ 4) (small : i + 1 < 2 ^ 31) :
    readGroup i (first :: rest) c =
      if b64index first = -1 then readGroup (i + 1) rest c
      else readGroup (i + 1) rest (c ++ [b64index first]) := by
  have fits : arith ((i : Int) + 1) = some ((i : Int) + 1) := arith_eq (by omega) (by omega)
  rw [readGroup, if_neg short, fits]

theorem readGroup_gap (i : Nat) (gap : List ForeignChar) (rest : List UInt8) {c : List Int}
    (short : c.length ≠ 4) (small : i + gap.length < 2 ^ 31) :
    readGroup i (gap.map Subtype.val ++ rest) c = readGroup (i + gap.length) rest c := by
  induction gap generalizing i with
  | nil => rfl
  | cons char gap ih =>
    rw [List.length_cons] at small ⊢
    rw [List.map_cons, List.cons_append, readGroup_cons i _ _ short (by omega),
      if_pos ((foreign_iff _).mp char.2), ih (i + 1) (by omega), Nat.add_assoc, Nat.add_comm 1]

section

variable (gaps : Nat → List ForeignChar)

theorem spread_cons (gap : List ForeignChar) (k : Nat) (c : UInt8) (rest : List UInt8) :
    spread gaps gap k (c :: rest) = gap.map Subtype.val ++ c :: spread gaps (gaps k) (k + 1) rest :=
  rfl

theorem length_spread (gap : List ForeignChar) (k : Nat) (text : List UInt8) (filled : text ≠ []) :
    (spread gaps gap k text).length =
      gap.length + text.length + ∑ j ∈ Finset.range (text.length - 1), (gaps (k + j)).length := by
  induction text generalizing gap k with
  | nil => exact absurd rfl filled
  | cons c rest ih =>
    cases rest with
    | nil => simp [spread]
    | cons d rest =>
      have shift (j : Nat) : k + 1 + j = k + (j + 1) := by omega
      rw [spread_cons, List.length_append, List.length_map, List.length_cons,
        ih (gaps k) (k + 1) (List.cons_ne_nil d rest)]
      simp only [List.length_cons, Nat.add_sub_cancel, shift]
      rw [Finset.sum_range_succ']
      simp only [Nat.add_zero]
      omega

theorem readGroup_spread (chars rest : List UInt8) (gap : List ForeignChar) (k i : Nat)
    (c : List Int) (four : c.length + chars.length = 4) (read : ∀ x ∈ chars, b64index x ≠ -1)
    (small : i + (spread gaps gap k (chars ++ rest)).length < 2 ^ 31) :
    ∃ gap' i', readGroup i (spread gaps gap k (chars ++ rest)) c =
        .ok (c ++ chars.map b64index, i', spread gaps gap' (k + chars.length) rest) ∧
      i' + (spread gaps gap' (k + chars.length) rest).length =
        i + (spread gaps gap k (chars ++ rest)).length := by
  induction chars generalizing gap k i c with
  | nil =>
    refine ⟨gap, i, ?_, rfl⟩
    rw [List.map_nil, List.append_nil]
    exact readGroup_full i _ four
  | cons first chars ih =>
    rw [List.length_cons] at four
    have short : c.length ≠ 4 := by omega
    rw [List.cons_append, spread_cons] at small ⊢
    rw [List.length_append, List.length_map, List.length_cons] at small ⊢
    obtain ⟨gap', i', taken, total⟩ := ih (gaps k) (k + 1) (i + gap.length + 1)
      (c ++ [b64index first]) (by rw [List.length_append, List.length_singleton]; omega)
      (fun x inside => read x (List.mem_cons_of_mem first inside)) (by omega)
    have place : k + (chars.length + 1) = k + 1 + chars.length := by omega
    rw [readGroup_gap i gap _ short (by omega), readGroup_cons _ _ _ short (by omega),
      if_neg (read first List.mem_cons_self), taken, List.length_cons, place]
    exact ⟨gap', i', by rw [List.append_assoc]; rfl, by omega⟩

theorem decodeLoop_codes {chars bytes : List UInt8} (codes : Codes chars bytes) (room : Int)
    (i k : Nat) (buffer rest : List UInt8) (gap : List ForeignChar)
    (small : i + (spread gaps gap k (chars ++ rest)).length < 2 ^ 31)
    (fits : ((buffer.length + bytes.length : Nat) : Int) ≤ room) :
    ∃ gap' i', decodeLoop room i buffer (spread gaps gap k (chars ++ rest)) =
        decodeLoop room i' (buffer ++ bytes) (spread gaps gap' (k + 4) rest) ∧
      i' + (spread gaps gap' (k + 4) rest).length < 2 ^ 31 := by
  obtain ⟨gap', i', taken, total⟩ := readGroup_spread gaps chars rest gap k i []
    (by rw [codes.four, List.length_nil]) codes.read small
  have filled : spread gaps gap k (chars ++ rest) ≠ [] := by
    obtain ⟨first, more, same⟩ := List.exists_cons_of_ne_nil
      (List.ne_nil_of_length_eq_add_one codes.four)
    rw [same, List.cons_append, spread_cons]
    exact List.append_ne_nil_of_right_ne_nil _ (List.cons_ne_nil _ _)
  rw [codes.four, List.nil_append] at taken
  rw [codes.four] at total
  refine ⟨gap', i', ?_, by omega⟩
  rw [decodeLoop_step filled taken, codes.decoded]
  change put room buffer bytes >>= _ = _
  rw [put_ok fits]
  rfl

theorem decodeLoop_encoded (room : Int) (i k : Nat) (buffer text : List UInt8)
    (gap : List ForeignChar) (small : i + (spread gaps gap k (encoded text)).length < 2 ^ 31)
    (fits : ((buffer.length + text.length : Nat) : Int) ≤ room) :
    decodeLoop room i buffer (spread gaps gap k (encoded text)) = .ok (buffer ++ text) := by
  have ended (j l : Nat) (all : List UInt8) (gap : List ForeignChar) :
      decodeLoop room j all (spread gaps gap l []) = .ok all := by
    rw [spread, decodeLoop, if_pos rfl]
  induction text using encoded.induct generalizing i k buffer gap with
  | case1 =>
    rw [encoded, List.append_nil]
    exact ended i k buffer gap
  | case2 first =>
    rw [encoded, ← List.append_nil (encodeOne first)] at small ⊢
    obtain ⟨gap', i', round, -⟩ :=
      decodeLoop_codes gaps (encodeOne_codes first) room i k buffer [] gap small fits
    rw [round]
    exact ended _ _ _ _
  | case3 first second =>
    rw [encoded, ← List.append_nil (encodeTwo first second)] at small ⊢
    obtain ⟨gap', i', round, -⟩ :=
      decodeLoop_codes gaps (encodeTwo_codes first second) room i k buffer [] gap small fits
    rw [round]
    exact ended _ _ _ _
  | case4 first second third rest ih =>
    have length : (first :: second :: third :: rest).length = 3 + rest.length := by
      simp only [List.length_cons]
      omega
    rw [length] at fits
    rw [encoded] at small ⊢
    obtain ⟨gap', i', round, small'⟩ := decodeLoop_codes gaps (encodeGroup_codes first second third)
      room i k buffer (encoded rest) gap small (by simp only [List.length_cons, List.length_nil]; omega)
    rw [round, ih i' (k + 4) _ gap' small', List.append_assoc]
    · rfl
    · simp only [List.length_append, List.length_cons, List.length_nil]
      omega

end

theorem decodeGroup_length {c : List Int} {bytes : List UInt8} (decoded : decodeGroup c = .ok bytes) :
    bytes.length ≤ 3 := by
  unfold decodeGroup at decoded
  simp only at decoded
  split at decoded
  · obtain rfl := Except.ok.inj decoded
    exact Nat.le_refl 3
  · split_ifs at decoded
    obtain rfl := Except.ok.inj decoded
    exact Nat.le_succ 2
  · split_ifs at decoded
    obtain rfl := Except.ok.inj decoded
    exact Nat.le_add_left 1 2
  · exact nomatch decoded

theorem decodeLoop_bounds {room : Int} {i : Nat} {buffer text all : List UInt8}
    (done : decodeLoop room i buffer text = .ok all) (start : i < 2 ^ 31) :
    i + text.length < 2 ^ 31 ∧ all.length ≤ buffer.length + 3 * (text.length / 4) := by
  induction size : text.length using Nat.strong_induction_on generalizing i buffer text with
  | _ n ih =>
  by_cases empty : text = []
  · subst empty
    rw [decodeLoop, if_pos rfl] at done
    obtain rfl := Except.ok.inj done
    rw [List.length_nil] at size
    omega
  · cases read : readGroup i text [] with
    | error fault =>
      rw [decodeLoop, if_neg empty] at done
      split at done
      · exact nomatch done
      · rename_i other
        rw [read] at other
        exact nomatch other
    | ok taken =>
      obtain ⟨c, i', rest⟩ := taken
      have shorter := readGroup_length read
      obtain ⟨small, total⟩ := readGroup_end read start
      rw [List.length_nil] at shorter
      rw [decodeLoop_step empty read] at done
      obtain ⟨buffer', written, later⟩ := Outcome.bind_ok.mp done
      obtain ⟨bytes, decoded, stored⟩ := Outcome.bind_ok.mp written
      obtain rfl := put_some stored
      have few := decodeGroup_length decoded
      have bounds := ih rest.length (by omega) later small rfl
      rw [List.length_append] at bounds
      omega

def spreadLength (text : List UInt8) (gaps : Nat → List ForeignChar) : Nat :=
  (text.length + 2) / 3 * 4 +
    ∑ j ∈ Finset.range ((text.length + 2) / 3 * 4 - 1), (gaps j).length

theorem length_spread_encoded (text : List UInt8) (gaps : Nat → List ForeignChar) :
    (spread gaps [] 0 (encoded text)).length = spreadLength text gaps := by
  have length := length_encoded text
  by_cases empty : encoded text = []
  · rw [empty, List.length_nil] at length
    rw [empty, spreadLength, ← length]
    rfl
  · rw [length_spread gaps [] 0 _ empty, spreadLength, ← length]
    simp only [List.length_nil, Nat.zero_add]

theorem fits_of_roundTrips {text : List UInt8} {gaps : Nat → List ForeignChar}
    (trips : Base64RoundTrips text gaps) : spreadLength text gaps < 2 ^ 31 := by
  obtain ⟨code, written, done⟩ := trips
  obtain ⟨small, few⟩ := decodeLoop_bounds done (by decide)
  have length := length_encoded text
  -- The decoded text is too short for an encoding that is no `int` any more.
  have fits : (encoded text).length < 2 ^ 31 := by
    rw [List.length_nil] at few
    omega
  obtain rfl := Except.ok.inj ((b64encode_encoded text fits).symm.trans written)
  rwa [Nat.zero_add, length_spread_encoded] at small

theorem roundTrips_of_fits {text : List UInt8} {gaps : Nat → List ForeignChar}
    (small : spreadLength text gaps < 2 ^ 31) : Base64RoundTrips text gaps := by
  have length := length_encoded text
  have total := length_spread_encoded text gaps
  have fits : (encoded text).length < 2 ^ 31 := by
    unfold spreadLength at small
    omega
  refine ⟨encoded text, b64encode_encoded text fits, ?_⟩
  unfold b64decode
  refine decodeLoop_encoded gaps _ 0 0 [] text [] (by omega) ?_
  have longer : (encoded text).length ≤ (spread gaps [] 0 (encoded text)).length := by
    rw [total, length]
    exact Nat.le_add_right _ _
  rw [toInt_eq (by omega) (by omega), List.length_nil]
  exact le_trans (by omega) (roomFor_le _)

theorem base64_iff (text : List UInt8) (gaps : Nat → List ForeignChar) :
    Base64RoundTrips text gaps ↔ spreadLength text gaps < 2 ^ 31 :=
  ⟨fits_of_roundTrips, roundTrips_of_fits⟩

theorem long_text_lost {text : List UInt8} {n : Nat} (length : text.length = n)
    (long : 1610612734 ≤ n) (gaps : Nat → List ForeignChar) : ¬Base64RoundTrips text gaps := by
  intro trips
  have small := fits_of_roundTrips trips
  rw [spreadLength, length] at small
  omega

-- The first length whose encoding is no `int` any more
theorem gigabytes_lost : ¬Base64RoundTrips (List.replicate 1610612734 0) fun _ => [] :=
  long_text_lost List.length_replicate (Nat.le_refl _) _

-- "Man" with a line break behind every character, and a text of one byte
example : Base64RoundTrips [77, 97, 110] (fun _ => [⟨10, by decide⟩]) ∧
    b64encode [77] = .ok [84, 81, 61, 61] := by
  refine ⟨roundTrips_of_fits ?_, by decide⟩
  simp [spreadLength]

end Pskynet.Crypt
