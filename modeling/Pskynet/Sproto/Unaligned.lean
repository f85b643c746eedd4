import Pskynet.Sproto.Packing

set_option autoImplicit false

namespace Pskynet.Sproto

open Memory

def openRun (words : List (List UInt8)) : Nat :=
  words.foldl (fun n word => if Joins word n then (n + 1) % 256 else 0) 0

theorem openRun_append (words : List (List UInt8)) (word : List UInt8) :
    openRun (words ++ [word]) =
      if Joins word (openRun words) then (openRun words + 1) % 256 else 0 := by
  rw [openRun, List.foldl_append]
  rfl

theorem length_coded (words : List (List UInt8)) :
    (coded words).2.length = openRun words ∧ openRun words < 256 := by
  induction words using List.reverseRecOn with
  | nil => exact ⟨rfl, Nat.zero_lt_succ 255⟩
  | append_singleton words word ih =>
    obtain ⟨same, few⟩ := ih
    rw [coded_append, openRun_append, packStep, same]
    split_ifs with joins
    · rw [joinStep, same]
      split_ifs with last
      · rw [last]
        exact ⟨rfl, Nat.zero_lt_succ 255⟩
      · rw [Nat.mod_eq_of_lt (by omega)]
        exact ⟨by rw [List.length_append, same]; rfl, by omega⟩
    · exact ⟨rfl, Nat.zero_lt_succ 255⟩

def wholeWords (s : List UInt8) : List (List UInt8) := wordsOf s s.length (s.length / 8)

def lastWord (s : List UInt8) : List UInt8 := wordAt s s.length (s.length / 8)

def padding (s : List UInt8) : Nat := 8 - s.length % 8

def RunsOver (s : List UInt8) : Prop :=
  openRun (wholeWords s) = 255 ∧ 6 ≤ (nonzero (lastWord s)).length

instance (s : List UInt8) : Decidable (RunsOver s) := inferInstanceAs (Decidable (_ ∧ _))

-- What `sproto_pack` puts out does not depend on the bytes behind the source, and is unpacked to
-- the source and zeros.
def PacksPadded (s : List UInt8) : Prop :=
  ∀ behind packed : List UInt8, (sprotoPackFrom (s ++ behind) s.length packed).2 ≤ packed.length →
    (sprotoPackFrom (s ++ behind) s.length packed).2 = (sprotoPack s packed).2 ∧
    (sprotoPackFrom (s ++ behind) s.length packed).1.take (sprotoPack s packed).2 =
      (sprotoPack s packed).1.take (sprotoPack s packed).2 ∧
    ∀ restored : List UInt8, ∃ buffer,
      sprotoUnpack ((sprotoPack s packed).1.take (sprotoPack s packed).2) restored =
          some (.size (s.length + padding s) buffer) ∧
        (s.length + padding s ≤ restored.length →
          buffer.take (s.length + padding s) = s ++ List.replicate (padding s) 0)

theorem wordAt_append (s behind : List UInt8) (k : Nat) :
    wordAt (s ++ behind) s.length k = wordAt s s.length k := by
  unfold wordAt
  rw [List.take_left, List.take_length]

theorem wordsOf_append (s behind : List UInt8) (n : Nat) :
    wordsOf (s ++ behind) s.length n = wordsOf s s.length n := by
  unfold wordsOf
  exact List.map_congr_left fun k _ => wordAt_append s behind k

theorem lastWord_eq (s : List UInt8) :
    lastWord s = s.drop (8 * (s.length / 8)) ++ List.replicate (padding s) 0 := by
  have few : (s.drop (8 * (s.length / 8))).length = s.length % 8 := by
    rw [List.length_drop]
    omega
  unfold lastWord wordAt padding
  rw [List.take_length, List.take_of_length_le (by omega)]
  simp only [few]

theorem lastWord_nonzero (s : List UInt8) : (nonzero (lastWord s)).length ≤ s.length % 8 := by
  have zeros : nonzero (List.replicate (padding s) 0) = [] :=
    List.filter_eq_nil_iff.mpr fun byte inside => by simp [List.eq_of_mem_replicate inside]
  have split : nonzero (lastWord s) = nonzero (s.drop (8 * (s.length / 8))) := by
    rw [lastWord_eq, nonzero, List.filter_append]
    exact (congrArg _ zeros).trans (List.append_nil _)
  have fewer := List.length_filter_le (· ≠ (0 : UInt8)) (s.drop (8 * (s.length / 8)))
  rw [split, nonzero]
  rw [List.length_drop] at fewer
  omega

theorem joins_lastWord (s : List UInt8) (n : Nat) :
    Joins (lastWord s) n ↔ 6 ≤ (nonzero (lastWord s)).length ∧ 0 < n := by
  have few := lastWord_nonzero s
  unfold Joins
  omega

def paddedBytes (s : List UInt8) : List UInt8 :=
  if Joins (lastWord s) (openRun (wholeWords s)) then
    (coded (wholeWords s)).1 ++ runBytes ((coded (wholeWords s)).2 ++ [lastWord s])
  else (coded (wholeWords s)).1 ++ runBytes (coded (wholeWords s)).2 ++ segment (lastWord s)

theorem paddedBytes_codes (s : List UInt8) :
    Codes (paddedBytes s) (s ++ List.replicate (padding s) 0) := by
  have memory : 8 * (s.length / 8) ≤ s.length := by omega
  obtain ⟨out, codes, whole⟩ := coded_codes s s.length _ memory le_rfl
  have packed := packWords_packed s [] s.length _ memory le_rfl
  have source : s ++ List.replicate (padding s) 0 = s.take (8 * (s.length / 8)) ++ lastWord s := by
    rw [lastWord_eq, ← List.append_assoc, List.take_append_drop]
  have eight : (lastWord s).length = 8 := length_wordAt s s.length _
  rw [source, ← whole]
  unfold paddedBytes
  split_ifs with joins
  · have run : ∀ word ∈ (coded (wholeWords s)).2 ++ [lastWord s], word.length = 8 := by
      intro word member
      rcases List.mem_append.mp member with old | new
      · exact packed.words word old
      · rw [List.mem_singleton.mp new, eight]
    have some_ := (joins_lastWord s _).mp joins
    have few : ((coded (wholeWords s)).2 ++ [lastWord s]).length ≤ 256 := by
      have bound := length_coded (wholeWords s)
      rw [List.length_append, List.length_singleton]
      omega
    have all := codes.append (runBytes_codes _ run few)
    simpa [wholeWords] using all
  · have sparse : (nonzero (lastWord s)).length ≠ 8 := fun all => joins (.inl all)
    have seg := Codes.segment _ eight sparse .nil
    rw [List.append_nil, List.append_nil] at seg
    have all := (codes.append (runBytes_codes _ packed.words packed.few.le)).append seg
    exact all

theorem sprotoPackFrom_padded (s behind buffer : List UInt8) (unaligned : ¬8 ∣ s.length)
    (within : ¬RunsOver s) :
    (sprotoPackFrom (s ++ behind) s.length buffer).2 = (paddedBytes s).length ∧
      ((paddedBytes s).length ≤ buffer.length →
        (sprotoPackFrom (s ++ behind) s.length buffer).1.take (paddedBytes s).length =
          paddedBytes s) := by
  have inside : 8 * (s.length / 8) ≤ s.length := by omega
  have memory : s.length ≤ (s ++ behind).length := by simp
  have packed := packWords_packed (s ++ behind) buffer s.length _ inside memory
  have bound := length_coded (wholeWords s)
  have turns : (s.length + 7) / 8 = s.length / 8 + 1 := by omega
  have last : wordAt (s ++ behind) s.length (s.length / 8) = lastWord s := wordAt_append s behind _
  rw [wordsOf_append] at packed
  unfold sprotoPackFrom packWords paddedBytes
  rw [turns, List.range_succ, List.map_append, List.foldl_append, List.map_singleton,
    List.foldl_cons, List.foldl_nil]
  rw [← bound.1]
  change Packed _ _ _ (coded (wholeWords s)).1 (coded (wholeWords s)).2 _ at packed
  generalize coded (wholeWords s) = state at packed bound ⊢
  obtain ⟨emitted, run⟩ := state
  simp only at packed bound ⊢
  generalize ((List.range (s.length / 8)).map (8 * ·)).foldl (packWord (s ++ behind) s.length) _ =
    loop at packed ⊢
  by_cases joins : Joins (lastWord s) run.length
  · rw [if_pos joins]
    obtain ⟨six, some_⟩ := (joins_lastWord s _).mp joins
    have more : run.length + 1 ≠ 256 := by
      intro full
      exact within ⟨by omega, six⟩
    obtain ⟨later, returned, length, kept⟩ :=
      packSeg_joins (lastWord s) loop.buffer loop.pos loop.bufsz run.length joins
    rw [if_pos some_] at returned
    have step := packWord_inside (s ++ behind) s.length loop (s.length / 8) later
      (by rw [packed.ffN]; exact some_) (by rw [packed.ffN]; exact more)
      (by rw [last, packed.ffN]; exact returned)
    obtain ⟨ffN, few, words, start, size, pos, bufsz, room, content⟩ := packed
    have first : run ≠ [] := List.length_pos_iff.mp some_
    obtain ⟨des, position, source⟩ := start first
    have whole : ∀ word ∈ run ++ [lastWord s], word.length = 8 := by
      intro word member
      rcases List.mem_append.mp member with old | new
      · exact words word old
      · rw [List.mem_singleton.mp new]
        exact length_wordAt s s.length _
    have old := length_runBytes run words first
    have total := length_runBytes (run ++ [lastWord s]) whole (by simp)
    rw [List.length_append, List.length_singleton] at total
    have bytes : s.length - loop.ffSrcstart = 8 * run.length + s.length % 8 := by omega
    have rest : ((s ++ behind).drop (8 * (s.length / 8))).take (s.length % 8) =
        s.drop (8 * (s.length / 8)) := by
      rw [List.drop_append_of_le_length inside]
      refine (List.take_append_of_le_length ?_).trans (List.take_of_length_le ?_)
      · rw [List.length_drop]
        omega
      · rw [List.length_drop]
        omega
    have joined : ((s ++ behind).drop loop.ffSrcstart).take (s.length - loop.ffSrcstart) ++
        List.replicate (8 * (run ++ [lastWord s]).length - (s.length - loop.ffSrcstart)) 0 =
          (run ++ [lastWord s]).flatten := by
      have zeros : 8 * (run ++ [lastWord s]).length - (s.length - loop.ffSrcstart) = padding s := by
        rw [List.length_append, List.length_singleton, padding]
        omega
      rw [zeros, bytes, List.take_add, source, List.drop_drop, position, rest, List.append_assoc,
        ← lastWord_eq, List.flatten_append]
      simp
    have front : emitted.length ≤ loop.pos := by omega
    obtain ⟨_, written⟩ := writeRun_written
      { loop with buffer := later, pos := loop.pos + 8, bufsz := loop.bufsz - 8,
                  ffN := loop.ffN + 1, size := loop.size + 8 }
      (s ++ behind) emitted buffer.length (s.length - loop.ffSrcstart) (run ++ [lastWord s]) whole
      (by simp) (by rw [List.length_append, List.length_singleton]; omega) des joined
      (length.trans room) (by
        simp only
        intro enough
        refine ⟨by omega, ?_⟩
        rw [take_shorter kept front, content (by omega)])
    have one : loop.ffN + 1 ≠ 1 := by omega
    have open_ : 1 < loop.ffN + 1 := by omega
    rw [step]
    simp only [one, open_, if_false, if_true, List.length_append, total]
    refine ⟨?_, ?_⟩
    · rw [writeRun_eq]
      simp only
      omega
    · intro enough
      rw [written (by simp only; omega), ← total, ← List.length_append, List.take_left]
  · rw [if_neg joins]
    have after := packed.sparse s.length (by rw [last]; exact joins)
    rw [last] at after
    generalize packWord (s ++ behind) s.length loop (8 * (s.length / 8)) = done at after ⊢
    have closed : done.ffN = 0 := after.ffN
    have size := after.size
    have content := after.content
    simp only [closed, runBytes, if_true, List.length_nil, Nat.add_zero, Nat.zero_ne_one, if_false,
      Nat.not_lt_zero] at size ⊢
    exact ⟨size, fun enough => content (by rw [size]; exact enough)⟩

theorem sprotoPackFrom_beyond (s behind : List UInt8) (unaligned : ¬8 ∣ s.length)
    (beyond : RunsOver s) (filled : behind.length = padding s) :
    ∃ bytes, Codes bytes (s ++ behind) ∧ ∀ buffer : List UInt8,
      (sprotoPackFrom (s ++ behind) s.length buffer).2 = bytes.length ∧
      (bytes.length ≤ buffer.length →
        (sprotoPackFrom (s ++ behind) s.length buffer).1.take bytes.length = bytes) := by
  have inside : 8 * (s.length / 8) ≤ s.length := by omega
  have memory : s.length ≤ (s ++ behind).length := by simp
  have packed := fun buffer =>
    packWords_packed (s ++ behind) buffer s.length (s.length / 8) inside memory
  obtain ⟨out, codes, whole⟩ := coded_codes (s ++ behind) s.length _ inside memory
  have bound := length_coded (wholeWords s)
  have turns : (s.length + 7) / 8 = s.length / 8 + 1 := by omega
  have last : wordAt (s ++ behind) s.length (s.length / 8) = lastWord s := wordAt_append s behind _
  rw [wordsOf_append] at codes whole
  simp only [wordsOf_append] at packed
  change ∀ buffer : List UInt8,
    Packed _ _ _ (coded (wholeWords s)).1 (coded (wholeWords s)).2 _ at packed
  change Codes (coded (wholeWords s)).1 _ at codes
  change out ++ (coded (wholeWords s)).2.flatten = _ at whole
  generalize coded (wholeWords s) = state at packed bound codes whole
  obtain ⟨emitted, run⟩ := state
  simp only at packed bound codes whole
  have full : run.length = 255 := bound.1.trans beyond.1
  have total : (s ++ behind).length = 8 * (s.length / 8) + 8 := by
    rw [List.length_append, filled, padding]
    omega
  have eight : (((s ++ behind).drop (8 * (s.length / 8))).take 8).length = 8 := by
    rw [List.length_take, List.length_drop]
    omega
  have joins : Joins (lastWord s) run.length := (joins_lastWord s _).mpr ⟨beyond.2, by omega⟩
  have step : joinStep (emitted, run) (((s ++ behind).drop (8 * (s.length / 8))).take 8) =
      (emitted ++ runBytes (run ++ [((s ++ behind).drop (8 * (s.length / 8))).take 8]), []) := by
    rw [joinStep, if_pos (by rw [full])]
  obtain ⟨out', codes', same⟩ := joinStep_codes emitted out _ run codes (packed []).words eight
  rw [step] at codes' same
  have source : out' = s ++ behind := by
    have end_ : (s ++ behind).take (8 * (s.length / 8) + 8) = s ++ behind :=
      List.take_of_length_le total.le
    rw [List.flatten_nil, List.append_nil, whole, ← List.take_add, end_] at same
    exact same
  refine ⟨_, source ▸ codes', fun buffer => ?_⟩
  have after := (packed buffer).joins s.length _ rfl eight (by rw [last]; exact joins)
  rw [step] at after
  unfold sprotoPackFrom packWords
  rw [turns, List.range_succ, List.map_append, List.foldl_append, List.map_singleton,
    List.foldl_cons, List.foldl_nil]
  generalize packWord (s ++ behind) s.length _ (8 * (s.length / 8)) = done at after ⊢
  have closed : done.ffN = 0 := after.ffN
  have size := after.size
  have content := after.content
  have none_ : runBytes [] = [] := rfl
  simp only [closed, none_, List.length_nil, Nat.add_zero, Nat.zero_ne_one, if_false,
    Nat.not_lt_zero] at size ⊢
  exact ⟨size, fun enough => content (by rw [size]; exact enough)⟩

theorem not_packsPadded (s : List UInt8) (unaligned : ¬8 ∣ s.length) (beyond : RunsOver s) :
    ¬PacksPadded s := by
  intro padded
  -- What is behind the source is unpacked in the place of the zeros.
  obtain ⟨bytes, codes, packed⟩ := sprotoPackFrom_beyond s (List.replicate (padding s) 1)
    unaligned beyond List.length_replicate
  obtain ⟨size, content⟩ := packed (List.replicate bytes.length 0)
  have content := content (by simp)
  obtain ⟨same, out, unpacks⟩ := padded (List.replicate (padding s) 1)
    (List.replicate bytes.length 0) (by rw [size]; simp)
  obtain ⟨buffer, done, zeros⟩ := unpacks (List.replicate (s.length + padding s) 0)
  rw [← out, ← same, size, content] at done
  obtain ⟨other, unpacked, ones⟩ := codes.restored (List.replicate (s.length + padding s) 0)
  rw [unpacked, List.length_append, List.length_replicate] at done
  cases done
  have zeros := zeros (by simp)
  have ones := ones (by simp)
  rw [List.length_append, List.length_replicate, zeros] at ones
  have bytes := List.append_cancel_left ones
  have some_ : 0 < padding s := by
    unfold padding
    omega
  have first := congrArg List.head? bytes
  rw [List.head?_replicate, List.head?_replicate, if_neg (by omega), if_neg (by omega)] at first
  cases first

theorem packsPadded_within (s : List UInt8) (unaligned : ¬8 ∣ s.length) (within : ¬RunsOver s) :
    PacksPadded s := by
  intro behind packed room
  obtain ⟨size, content⟩ := sprotoPackFrom_padded s behind packed unaligned within
  obtain ⟨size', content'⟩ := sprotoPackFrom_padded s [] packed unaligned within
  rw [List.append_nil] at size' content'
  change (sprotoPack s packed).2 = _ at size'
  change _ → (sprotoPack s packed).1.take _ = _ at content'
  rw [size] at room
  rw [size, size', content room, content' room]
  refine ⟨rfl, rfl, fun restored => ?_⟩
  have restores := (paddedBytes_codes s).restored restored
  rwa [List.length_append, List.length_replicate] at restores

theorem packsPadded_iff (s : List UInt8) (unaligned : ¬8 ∣ s.length) :
    PacksPadded s ↔ ¬RunsOver s := by
  constructor
  · intro padded beyond
    exact not_packsPadded s unaligned beyond padded
  · exact packsPadded_within s unaligned

theorem short_run_packsPadded : PacksPadded (List.replicate 16 7 ++ [1, 0, 3]) :=
  (packsPadded_iff _ (by decide)).mpr (by decide)

def longRun : List UInt8 := List.replicate 2046 1

theorem wordAt_longRun (k : Nat) (inside : k < 255) :
    wordAt longRun longRun.length k = List.replicate 8 1 := by
  have length : longRun.length = 2046 := List.length_replicate
  rw [wordAt_whole longRun longRun.length k (by omega) le_rfl, longRun, List.drop_replicate,
    List.take_replicate, Nat.min_eq_left (by omega)]

theorem openRun_longRun (n : Nat) (few : n ≤ 255) :
    openRun (wordsOf longRun longRun.length n) = n := by
  induction n with
  | zero => rfl
  | succ n ih =>
    have joins (m : Nat) : Joins (List.replicate 8 1) m := .inl rfl
    rw [wordsOf_succ, openRun_append, wordAt_longRun n (by omega), ih (by omega), if_pos (joins n),
      Nat.mod_eq_of_lt (by omega)]

theorem longRun_runsOver : RunsOver longRun := by
  have whole : longRun.length / 8 = 255 := by rw [longRun, List.length_replicate]
  have tail : longRun.drop 2040 = List.replicate 6 1 := by rw [longRun, List.drop_replicate]
  constructor
  · rw [wholeWords, whole]
    exact openRun_longRun 255 le_rfl
  · rw [lastWord, whole, wordAt, List.take_length, tail]
    decide

theorem longRun_not_packsPadded : ¬PacksPadded longRun := by
  refine not_packsPadded longRun ?_ ?_
  · rw [longRun, List.length_replicate]
    decide
  · exact longRun_runsOver

end Pskynet.Sproto
