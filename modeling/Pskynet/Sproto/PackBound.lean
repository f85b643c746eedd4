import Pskynet.Shared.Outcome
import Pskynet.Sproto.Unaligned

set_option autoImplicit false

namespace Pskynet.Sproto

open Memory

structure Tally where
  openRun : Nat
  runs : Nat
  saved : Nat

def Tally.word (t : Tally) (word : List UInt8) : Tally :=
  if Joins word t.openRun then
    { t with openRun := (t.openRun + 1) % 256, runs := if t.openRun = 0 then t.runs + 1 else t.runs }
  else { t with openRun := 0, saved := t.saved + (7 - (nonzero word).length) }

def tally (words : List (List UInt8)) : Tally := words.foldl Tally.word ⟨0, 0, 0⟩

theorem tally_append (words : List (List UInt8)) (word : List UInt8) :
    tally (words ++ [word]) = (tally words).word word := by
  rw [tally, List.foldl_append]
  rfl

theorem tally_openRun (words : List (List UInt8)) : (tally words).openRun = openRun words := by
  induction words using List.reverseRecOn with
  | nil => rfl
  | append_singleton words word ih =>
    rw [tally_append, openRun_append, Tally.word, ih]
    by_cases joins : Joins word (openRun words)
    · rw [if_pos joins, if_pos joins]
    · rw [if_neg joins, if_neg joins]

def segSize (word : List UInt8) (n : Nat) : Nat :=
  if Joins word n then if 0 < n then 8 else 10 else (nonzero word).length + 1

theorem packSeg_size (word buffer : List UInt8) (pos : Nat) (sz : Int) (n : Nat) :
    ∃ later, packSeg word buffer pos sz n = (later, segSize word n) := by
  unfold segSize
  by_cases joins : Joins word n
  · obtain ⟨later, returned, _⟩ := packSeg_joins word buffer pos sz n joins
    exact ⟨later, by rw [returned, if_pos joins]⟩
  · obtain ⟨later, returned, _⟩ := packSeg_sparse word buffer pos sz n joins
    refine ⟨later, ?_⟩
    rw [returned, if_neg joins]
    rfl

theorem nonzero_le (word : List UInt8) (eight : word.length = 8) : (nonzero word).length ≤ 8 := by
  rw [← eight]
  exact List.length_filter_le _ _

theorem count_size (s : PackLoop) (srcv : List UInt8) (i : Nat) (word : List UInt8)
    (eight : word.length = 8) (few : s.ffN < 256) :
    (s.count srcv i (segSize word s.ffN)).size = s.size ∧
      (s.count srcv i (segSize word s.ffN)).ffN =
        if Joins word s.ffN then (s.ffN + 1) % 256 else 0 := by
  have most := nonzero_le word eight
  unfold segSize
  split_ifs with joins some_
  · unfold PackLoop.count
    rw [if_neg (by decide), if_pos ⟨rfl, some_⟩]
    simp only
    split_ifs with last
    · rw [writeRun_eq, last]
      exact ⟨rfl, rfl⟩
    · rw [Nat.mod_eq_of_lt (by omega)]
      exact ⟨rfl, rfl⟩
  · have none_ : s.ffN = 0 := by omega
    unfold PackLoop.count
    rw [if_pos rfl, none_]
    exact ⟨rfl, rfl⟩
  · have small : (nonzero word).length + 1 ≠ 10 := by omega
    have alone : ¬((nonzero word).length + 1 = 8 ∧ 0 < s.ffN) := by
      rintro ⟨seven, some_⟩
      exact joins (.inr (.inl ⟨by omega, some_⟩))
    unfold PackLoop.count
    rw [if_neg small, if_neg alone]
    split_ifs with some_
    · rw [writeRun_eq]
      exact ⟨rfl, rfl⟩
    · exact ⟨rfl, by omega⟩

theorem packWord_size (srcv : List UInt8) (srcsz k : Nat) (s : PackLoop) (few : s.ffN < 256) :
    (packWord srcv srcsz s (8 * k)).size = s.size + segSize (wordAt srcv srcsz k) s.ffN ∧
      (packWord srcv srcsz s (8 * k)).ffN =
        if Joins (wordAt srcv srcsz k) s.ffN then (s.ffN + 1) % 256 else 0 := by
  obtain ⟨later, returned⟩ := packSeg_size (wordAt srcv srcsz k) s.buffer s.pos s.bufsz s.ffN
  rw [packWord_eq srcv srcsz s k later _ returned]
  obtain ⟨kept, run⟩ := count_size
    { s with buffer := later, bufsz := s.bufsz - segSize (wordAt srcv srcsz k) s.ffN }
    srcv (8 * k) _ (length_wordAt srcv srcsz k) few
  exact ⟨congrArg (· + segSize (wordAt srcv srcsz k) s.ffN) kept, run⟩

theorem packLoop_size (srcv : List UInt8) (srcsz n : Nat) (s : PackLoop) (none_ : s.ffN = 0)
    (zero : s.size = 0) :
    (((List.range n).map (8 * ·)).foldl (packWord srcv srcsz) s).ffN =
        openRun (wordsOf srcv srcsz n) ∧
      (((List.range n).map (8 * ·)).foldl (packWord srcv srcsz) s).size +
          (tally (wordsOf srcv srcsz n)).saved =
        8 * n + 2 * (tally (wordsOf srcv srcsz n)).runs := by
  induction n with
  | zero => exact ⟨none_, congrArg (· + 0) zero⟩
  | succ n ih =>
    obtain ⟨run, size⟩ := ih
    have few := (length_coded (wordsOf srcv srcsz n)).2
    have most := nonzero_le _ (length_wordAt srcv srcsz n)
    obtain ⟨grown, next⟩ := packWord_size srcv srcsz n _ (run.trans_lt few)
    rw [List.range_succ, List.map_append, List.foldl_append, List.map_singleton, List.foldl_cons,
      List.foldl_nil, wordsOf_succ, openRun_append, tally_append, next, grown, run, Tally.word,
      tally_openRun, segSize]
    refine ⟨rfl, ?_⟩
    by_cases joins : Joins (wordAt srcv srcsz n) (openRun (wordsOf srcv srcsz n))
    · rw [if_pos joins, if_pos joins]
      by_cases first : openRun (wordsOf srcv srcsz n) = 0
      · simp only [first, Nat.lt_irrefl, if_false, if_true]
        omega
      · have some_ : 0 < openRun (wordsOf srcv srcsz n) := by omega
        simp only [first, some_, if_false, if_true]
        omega
    · have few : (nonzero (wordAt srcv srcsz n)).length ≠ 8 := fun all => joins (.inl all)
      rw [if_neg joins, if_neg joins]
      simp only
      omega

theorem sprotoPackFrom_size (srcv : List UInt8) (srcsz : Nat) (buffer : List UInt8) :
    (sprotoPackFrom srcv srcsz buffer).2 +
        (tally (wordsOf srcv srcsz ((srcsz + 7) / 8))).saved =
      8 * ((srcsz + 7) / 8) + 2 * (tally (wordsOf srcv srcsz ((srcsz + 7) / 8))).runs := by
  have size := (packLoop_size srcv srcsz ((srcsz + 7) / 8)
    { buffer := buffer, pos := 0, bufsz := buffer.length, ffSrcstart := 0, ffDesstart := 0, ffN := 0,
      size := 0 } rfl rfl).2
  rw [← size]
  unfold sprotoPackFrom packWords
  simp only
  split_ifs
  · rw [writeRun_eq]
  · rw [writeRun_eq]
  · rfl

theorem tally_slack (words : List (List UInt8)) (eight : ∀ word ∈ words, word.length = 8) :
    2 * (tally words).runs ≤ (tally words).saved +
      2 * ((words.length - openRun words) / 256 + if openRun words = 0 then 0 else 1) ∧
    openRun words ≤ words.length := by
  induction words using List.reverseRecOn with
  | nil => exact ⟨Nat.zero_le _, Nat.zero_le _⟩
  | append_singleton words word ih =>
    obtain ⟨slack, few⟩ := ih fun w inside => eight w (List.mem_append_left _ inside)
    have bound := (length_coded words).2
    have most := nonzero_le word (eight word (List.mem_append_right _ (List.mem_singleton_self _)))
    rw [tally_append, openRun_append, Tally.word, tally_openRun, List.length_append,
      List.length_singleton]
    by_cases joins : Joins word (openRun words)
    · rw [if_pos joins, if_pos joins]
      by_cases first : openRun words = 0
      · have one : (0 + 1) % 256 = 1 := rfl
        simp only [first, one, one_ne_zero, if_true, if_false] at slack ⊢
        omega
      · simp only [first, if_false] at slack ⊢
        by_cases last : openRun words = 255
        · simp only [last] at slack ⊢
          omega
        · have more : (openRun words + 1) % 256 = openRun words + 1 := Nat.mod_eq_of_lt (by omega)
          simp only [more, Nat.add_one_ne_zero, if_false]
          omega
    · rw [if_neg joins, if_neg joins]
      unfold Joins at joins
      simp only [if_true]
      split_ifs at slack
      · omega
      · omega

def tailExcess (s : List UInt8) : Nat :=
  if Joins (lastWord s) (openRun (wholeWords s)) then 8 - s.length % 8
  else if (nonzero (lastWord s)).length = s.length % 8 then 1
  else 0

def FitsBound (s : List UInt8) : Prop :=
  8 ∣ s.length ∨ 2 * (tally (wholeWords s)).runs + tailExcess s ≤
    2 * ((s.length + 2047) / 2048) + (tally (wholeWords s)).saved

instance (s : List UInt8) : Decidable (FitsBound s) := inferInstanceAs (Decidable (_ ∨ _))

theorem length_wholeWords (s : List UInt8) : (wholeWords s).length = s.length / 8 := by
  rw [wholeWords, wordsOf, List.length_map, List.length_range]

theorem wholeWords_eight (s : List UInt8) : ∀ word ∈ wholeWords s, word.length = 8 := by
  intro word inside
  obtain ⟨k, _, rfl⟩ := List.mem_map.mp inside
  exact length_wordAt s s.length k

theorem size_le_maxsz_iff (s behind buffer : List UInt8) :
    (sprotoPackFrom (s ++ behind) s.length buffer).2 ≤ maxsz s.length ↔ FitsBound s := by
  have size := sprotoPackFrom_size (s ++ behind) s.length buffer
  obtain ⟨slack, few⟩ := tally_slack (wholeWords s) (wholeWords_eight s)
  rw [wordsOf_append] at size
  rw [length_wholeWords] at slack few
  unfold maxsz FitsBound
  by_cases aligned : 8 ∣ s.length
  · have turns : (s.length + 7) / 8 = s.length / 8 := by omega
    rw [turns] at size
    change _ + (tally (wholeWords s)).saved = _ + 2 * (tally (wholeWords s)).runs at size
    split_ifs at slack
    · omega
    · omega
  · have turns : (s.length + 7) / 8 = s.length / 8 + 1 := by omega
    have words : wordsOf s s.length (s.length / 8 + 1) = wholeWords s ++ [lastWord s] :=
      wordsOf_succ s s.length _
    rw [turns, words, tally_append, Tally.word, tally_openRun] at size
    have most := lastWord_nonzero s
    have joins := joins_lastWord s (openRun (wholeWords s))
    unfold tailExcess
    by_cases joined : Joins (lastWord s) (openRun (wholeWords s))
    · obtain ⟨six, some_⟩ := joins.mp joined
      have first : openRun (wholeWords s) ≠ 0 := by omega
      simp only [joined, first, if_true, if_false] at size slack ⊢
      omega
    · simp only [joined, if_false] at size ⊢
      split_ifs at slack ⊢
      · omega
      · omega
      · omega
      · omega

def largestOutput : Nat := 8396800

theorem largestOutput_eq : encodeBuffersize * 2 ^ 12 = largestOutput := by
  norm_num [encodeBuffersize, largestOutput]

theorem outputSize_le {doublings : Nat} (few : doublings ≤ 12) :
    encodeBuffersize * 2 ^ doublings ≤ largestOutput := by
  rw [← largestOutput_eq]
  exact Nat.mul_le_mul_left _ (Nat.pow_le_pow_right (by decide) few)

theorem le_outputSize {doublings : Nat} (many : 12 ≤ doublings) :
    largestOutput ≤ encodeBuffersize * 2 ^ doublings := by
  rw [← largestOutput_eq]
  exact Nat.mul_le_mul_left _ (Nat.pow_le_pow_right (by decide) many)

theorem outputSize_strict {a b : Nat} (less : a < b) :
    2 * (encodeBuffersize * 2 ^ a) ≤ encodeBuffersize * 2 ^ b := by
  have power : 2 ^ (a + 1) ≤ 2 ^ b := Nat.pow_le_pow_right (by decide) less
  rw [pow_succ] at power
  unfold encodeBuffersize
  omega

theorem Output.size_le (output : Output) : output.size ≤ largestOutput := by
  by_contra large
  have more : 12 < output.doublings := by
    by_contra few
    exact large (outputSize_le (not_lt.mp few))
  have twice := outputSize_strict more
  have small := output.small
  rw [largestOutput_eq] at twice
  simp only [largestOutput, encodeMaxsize] at twice small
  omega

theorem doubled_reaches (nsz : Int) (turns doublings : Nat) (small : nsz ≤ largestOutput)
    (few : doublings < 12) (enough : 12 ≤ doublings + turns) :
    ∃ result, doubled nsz turns doublings = .ok result ∧ result ≤ 12 ∧
      nsz ≤ (encodeBuffersize * 2 ^ result : Nat) := by
  induction turns generalizing doublings with
  | zero => omega
  | succ turns ih =>
    have most : encodeBuffersize * 2 ^ (doublings + 1) ≤ largestOutput := outputSize_le few
    have fits : ¬2 ^ 31 ≤ encodeBuffersize * 2 ^ (doublings + 1) := by
      unfold largestOutput at most
      omega
    rw [doubled, if_neg fits]
    split_ifs with short
    · refine ih (doublings + 1) ?_ (by omega)
      by_contra last
      have large := le_outputSize (not_lt.mp last)
      omega
    · exact ⟨doublings + 1, rfl, few, not_lt.mp short⟩

theorem doubled_ge {nsz : Int} {turns doublings result : Nat}
    (done : doubled nsz turns doublings = .ok result) :
    nsz ≤ (encodeBuffersize * 2 ^ result : Nat) := by
  induction turns generalizing doublings with
  | zero => cases done
  | succ turns ih =>
    unfold doubled at done
    split_ifs at done with large short
    · exact ih done
    · obtain rfl := Except.ok.inj done
      exact not_lt.mp short

theorem reserve_ok (output : Output) (maxsz : Nat) (small : maxsz ≤ largestOutput) :
    ∃ reserved, output.reserve maxsz = .ok reserved ∧ maxsz ≤ reserved.size := by
  unfold Output.reserve
  split_ifs with short
  · have few : output.doublings < 12 := by
      by_contra most
      have large : largestOutput ≤ output.size := le_outputSize (not_lt.mp most)
      omega
    have same : CInt.toInt maxsz = maxsz := by
      unfold largestOutput at small
      exact CInt.toInt_eq (by omega) (by omega)
    obtain ⟨doublings, done, within, room⟩ :=
      doubled_reaches maxsz 31 output.doublings (by exact_mod_cast small) few (by omega)
    have kept : encodeBuffersize * 2 ^ doublings ≤ encodeMaxsize :=
      (outputSize_le within).trans (by norm_num [largestOutput, encodeMaxsize])
    refine ⟨⟨doublings, kept⟩, ?_, by exact_mod_cast room⟩
    rw [expandBuffer, same, done]
    exact dif_pos kept
  · exact ⟨output, rfl, not_lt.mp short⟩

theorem reserve_small {output reserved : Output} {maxsz : Nat} (int : maxsz < 2 ^ 31)
    (done : output.reserve maxsz = .ok reserved) : maxsz ≤ largestOutput := by
  unfold Output.reserve at done
  split_ifs at done with short
  · rw [CInt.toInt_eq (by omega) (by omega), expandBuffer] at done
    cases loop : doubled (maxsz : Int) 31 output.doublings with
    | error fault =>
      rw [loop] at done
      cases done
    | ok doublings =>
      have room := doubled_ge loop
      rw [loop] at done
      by_cases small : encodeBuffersize * 2 ^ doublings ≤ encodeMaxsize
      · have within := Output.size_le ⟨doublings, small⟩
        have within : encodeBuffersize * 2 ^ doublings ≤ largestOutput := within
        omega
      · cases (dif_neg small).symm.trans done
  · exact (not_lt.mp short).trans output.size_le

-- The bytes that a list of words takes, with what the words in bitmap form save.
def wordsSize (words : List (List UInt8)) : Int :=
  8 * words.length + 2 * (tally words).runs - (tally words).saved

theorem wordsSize_snoc (words : List (List UInt8)) (word : List UInt8) :
    wordsSize words + 1 ≤ wordsSize (words ++ [word]) ∧
      wordsSize (words ++ [word]) ≤ wordsSize words + 10 := by
  unfold wordsSize
  rw [tally_append, List.length_append, List.length_singleton, Tally.word]
  split_ifs with joins first
  · simp only
    omega
  · simp only
    omega
  · simp only
    omega

theorem wordsSize_append (words more : List (List UInt8)) :
    wordsSize words + more.length ≤ wordsSize (words ++ more) := by
  induction more using List.reverseRecOn with
  | nil => simp
  | append_singleton more word ih =>
    have next := (wordsSize_snoc (words ++ more) word).1
    rw [← List.append_assoc, List.length_append, List.length_singleton]
    omega

theorem sprotoPackFrom_wordsSize (srcv : List UInt8) (srcsz : Nat) (buffer : List UInt8) :
    ((sprotoPackFrom srcv srcsz buffer).2 : Int) =
      wordsSize (wordsOf srcv srcsz ((srcsz + 7) / 8)) := by
  have size := sprotoPackFrom_size srcv srcsz buffer
  have words : (wordsOf srcv srcsz ((srcsz + 7) / 8)).length = (srcsz + 7) / 8 := by
    rw [wordsOf, List.length_map, List.length_range]
  unfold wordsSize
  rw [words]
  omega

theorem words_le_size (srcv : List UInt8) (srcsz : Nat) (buffer : List UInt8) :
    (srcsz + 7) / 8 ≤ (sprotoPackFrom srcv srcsz buffer).2 := by
  have size := sprotoPackFrom_wordsSize srcv srcsz buffer
  have least := wordsSize_append [] (wordsOf srcv srcsz ((srcsz + 7) / 8))
  have none_ : wordsSize [] = 0 := rfl
  rw [List.nil_append, none_, wordsOf, List.length_map, List.length_range, ← wordsOf] at least
  omega

theorem wordsOf_cut (srcv : List UInt8) (few srcsz : Nat) (less : few ≤ srcsz) :
    wordsOf srcv few (few / 8) = wordsOf srcv srcsz (few / 8) := by
  refine List.map_congr_left fun k inside => ?_
  have within : 8 * k + 8 ≤ few := by
    rw [List.mem_range] at inside
    omega
  unfold wordAt
  rw [List.drop_take, List.drop_take, List.take_take, List.take_take, Nat.min_eq_left (by omega),
    Nat.min_eq_left (by omega)]

-- A message of which only a part is packed takes less.
theorem size_cut (srcv buffer block : List UInt8) (few srcsz : Nat) (less : few + 128 ≤ srcsz) :
    (sprotoPackFrom srcv few buffer).2 < (sprotoPackFrom srcv srcsz block).2 := by
  have part := sprotoPackFrom_wordsSize srcv few buffer
  have whole := sprotoPackFrom_wordsSize srcv srcsz block
  obtain ⟨more, split⟩ : ∃ more, (srcsz + 7) / 8 = few / 8 + more :=
    ⟨(srcsz + 7) / 8 - few / 8, by omega⟩
  have longer : wordsOf srcv srcsz (few / 8 + more) = wordsOf srcv srcsz (few / 8) ++
      (List.range more).map fun k => wordAt srcv srcsz (few / 8 + k) := by
    rw [wordsOf, List.range_add, List.map_append, List.map_map]
    rfl
  have least := wordsSize_append (wordsOf srcv srcsz (few / 8))
    ((List.range more).map fun k => wordAt srcv srcsz (few / 8 + k))
  rw [← longer, ← split, List.length_map, List.length_range] at least
  rw [← wordsOf_cut srcv few srcsz (by omega)] at least
  by_cases aligned : 8 ∣ few
  · have same : (few + 7) / 8 = few / 8 := by omega
    rw [same] at part
    omega
  · have next : (few + 7) / 8 = few / 8 + 1 := by omega
    have most := (wordsSize_snoc (wordsOf srcv few (few / 8)) (wordAt srcv few (few / 8))).2
    rw [next, wordsOf_succ] at part
    omega

def packedSize (s : List UInt8) : Nat := (sprotoPack s []).2

theorem size_eq_packedSize (s behind buffer : List UInt8) :
    (sprotoPackFrom (s ++ behind) s.length buffer).2 = packedSize s := by
  have part := sprotoPackFrom_wordsSize (s ++ behind) s.length buffer
  have alone := sprotoPackFrom_wordsSize s s.length []
  rw [wordsOf_append] at part
  unfold packedSize sprotoPack
  omega

theorem pushPacked_ok (output : Output) (maxsz : Nat) (packed : List UInt8 × Nat)
    (result : List UInt8 × Nat × Output) :
    pushPacked output maxsz packed = .ok result ↔
      packed.2 < 2 ^ 31 ∧ packed.2 ≤ maxsz ∧ packed.2 ≤ output.size ∧
        result = (packed.1, packed.2, output) := by
  unfold pushPacked
  simp only
  constructor
  · intro done
    split_ifs at done with large refused outside
    exact ⟨by omega, by omega, by omega, (Except.ok.inj done).symm⟩
  · rintro ⟨int, within, inside, rfl⟩
    rw [if_neg (by omega), if_neg (by omega), if_neg (by omega)]

theorem lpack_ok (output : Output) (buffer : List UInt8) (sz : Nat)
    (result : List UInt8 × Nat × Output) :
    lpack output buffer sz = .ok result ↔
      ∃ reserved, output.reserve (maxsz sz) = .ok reserved ∧
        pushPacked reserved (maxsz sz) (sprotoPackFrom buffer (CInt.toInt sz).toNat
          (malloc (CInt.toInt (maxsz sz)).toNat)) = .ok result :=
  Outcome.bind_ok

theorem toInt_less (n : Nat) (large : 2 ^ 31 ≤ n) : (CInt.toInt n).toNat + 128 ≤ n := by
  unfold CInt.toInt
  rw [Int.bmod_def]
  split_ifs <;> omega

theorem lpack_cut (output reserved : Output) (s behind block : List UInt8)
    (large : 2 ^ 31 ≤ maxsz s.length) :
    lpack output (s ++ behind) s.length ≠ .ok (block, packedSize s, reserved) := by
  intro done
  obtain ⟨output', -, pushed⟩ := (lpack_ok ..).mp done
  obtain ⟨-, -, inside, same⟩ := (pushPacked_ok ..).mp pushed
  simp only [Prod.mk.injEq] at same
  have size := same.2.1
  have whole := size_eq_packedSize s behind []
  by_cases int : s.length < 2 ^ 31
  · rw [CInt.toInt_eq (by omega) (by omega), Int.toNat_natCast] at inside
    have words := words_le_size (s ++ behind) s.length
      (malloc (CInt.toInt (maxsz s.length)).toNat)
    have most := output'.size_le
    simp only [maxsz, largestOutput] at large most
    omega
  · have fewer := size_cut (s ++ behind) (malloc (CInt.toInt (maxsz s.length)).toNat) [] _ _
      (toInt_less s.length (by omega))
    omega

theorem lpack_iff (output : Output) (s behind : List UInt8) :
    packedSize s ≤ maxsz s.length ∧
      (∃ block reserved, lpack output (s ++ behind) s.length = .ok (block, packedSize s, reserved)) ↔
    maxsz s.length ≤ largestOutput ∧ FitsBound s := by
  have bound := size_le_maxsz_iff s behind []
  rw [size_eq_packedSize] at bound
  rw [bound]
  constructor
  · rintro ⟨fits, block, reserved, done⟩
    refine ⟨?_, fits⟩
    by_cases large : 2 ^ 31 ≤ maxsz s.length
    · exact absurd done (lpack_cut output reserved s behind block large)
    · obtain ⟨output', kept, -⟩ := (lpack_ok ..).mp done
      exact reserve_small (not_le.mp large) kept
  · rintro ⟨small, fits⟩
    refine ⟨fits, ?_⟩
    obtain ⟨reserved, kept, room⟩ := reserve_ok output (maxsz s.length) small
    have within := bound.mpr fits
    have int : maxsz s.length < 2 ^ 31 := small.trans_lt (by norm_num [largestOutput])
    have same : (CInt.toInt s.length).toNat = s.length := by
      unfold maxsz at int
      rw [CInt.toInt_eq (by omega) (by omega), Int.toNat_natCast]
    have size := size_eq_packedSize s behind (malloc (CInt.toInt (maxsz s.length)).toNat)
    have pushed := (pushPacked_ok reserved (maxsz s.length) (sprotoPackFrom (s ++ behind) s.length
      (malloc (CInt.toInt (maxsz s.length)).toNat)) _).mpr
        ⟨by omega, by omega, by omega, by rw [size]⟩
    exact ⟨_, reserved, (lpack_ok ..).mpr ⟨reserved, kept, by rw [same]; exact pushed⟩⟩

def firstOutput : Output := ⟨0, by decide⟩

theorem nine_bytes_refused :
    packedSize (List.replicate 9 1) = 12 ∧ maxsz 9 = 11 ∧
      lpack firstOutput (List.replicate 9 1) 9 =
        .error (.error "packing error, return size = 12") := by
  refine ⟨by decide +kernel, by decide, ?_⟩
  rfl

end Pskynet.Sproto
