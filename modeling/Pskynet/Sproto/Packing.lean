import Pskynet.Sproto.Pack

set_option autoImplicit false

namespace Pskynet.Sproto

open Memory

def nonzero (word : List UInt8) : List UInt8 := word.filter (· ≠ 0)

def setBit (header : UInt8) (item : UInt8 × Nat) : UInt8 :=
  if item.1 ≠ 0 then header ||| 1 <<< UInt8.ofNat item.2 else header

def headerOf (word : List UInt8) : UInt8 := word.zipIdx.foldl setBit 0

def segment (word : List UInt8) : List UInt8 := headerOf word :: nonzero word

def runBytes (run : List (List UInt8)) : List UInt8 :=
  if run = [] then [] else 0xff :: UInt8.ofNat (run.length - 1) :: run.flatten

theorem take_set_succ (block : List UInt8) (pos : Nat) (byte : UInt8) (inside : pos < block.length) :
    (block.set pos byte).take (pos + 1) = block.take pos ++ [byte] := by
  rw [List.take_add_one, List.take_set_of_le le_rfl, List.getElem?_set_self inside]
  rfl

theorem take_shorter {first second : List UInt8} {m n : Nat} (same : first.take n = second.take n)
    (shorter : m ≤ n) : first.take m = second.take m := by
  have cut := congrArg (List.take m) same
  rwa [List.take_take, List.take_take, Nat.min_eq_left shorter] at cut

theorem segLoop_frame (src : List UInt8) (first : Nat) (s : SegLoop) (front : Nat)
    (before : front ≤ s.pos) :
    ((src.zipIdx first).foldl segByte s).notzero = s.notzero + (nonzero src).length ∧
      ((src.zipIdx first).foldl segByte s).header = (src.zipIdx first).foldl setBit s.header ∧
      ((src.zipIdx first).foldl segByte s).buffer.length = s.buffer.length ∧
      ((src.zipIdx first).foldl segByte s).buffer.take front = s.buffer.take front := by
  induction src generalizing first s with
  | nil => simp [nonzero]
  | cons byte src ih =>
    rw [List.zipIdx_cons, List.foldl_cons, List.foldl_cons]
    by_cases zero : byte = 0
    · subst zero
      have same : segByte s (0, first) = s := rfl
      rw [same]
      simpa [nonzero, setBit] using ih (first + 1) s before
    · have count : (nonzero (byte :: src)).length = (nonzero src).length + 1 := by
        simp [nonzero, zero]
      have bit : setBit s.header (byte, first) = s.header ||| 1 <<< UInt8.ofNat first := if_pos zero
      by_cases room : 0 < s.sz
      · have next : segByte s (byte, first) =
            { header := s.header ||| 1 <<< UInt8.ofNat first, notzero := s.notzero + 1,
              buffer := s.buffer.set s.pos byte, pos := s.pos + 1, sz := s.sz - 1 } := by
          simp [segByte, zero, room]
        obtain ⟨notzero, header, length, kept⟩ := ih (first + 1) (segByte s (byte, first)) (by
          rw [next]
          exact Nat.le_succ_of_le before)
        rw [notzero, header, length, kept, next, count, bit]
        refine ⟨by simp only; omega, rfl, List.length_set, ?_⟩
        rw [List.take_set_of_le before]
      · have next : segByte s (byte, first) =
            { s with header := s.header ||| 1 <<< UInt8.ofNat first, notzero := s.notzero + 1 } := by
          simp [segByte, zero, room]
        obtain ⟨notzero, header, length, kept⟩ := ih (first + 1) (segByte s (byte, first)) (by
          rw [next]
          exact before)
        rw [notzero, header, length, kept, next, count, bit]
        exact ⟨by simp only; omega, rfl, rfl, rfl⟩

theorem segLoop_written (src : List UInt8) (first : Nat) (s : SegLoop)
    (room : (nonzero src).length ≤ s.sz) (fits : s.pos + (nonzero src).length ≤ s.buffer.length) :
    ((src.zipIdx first).foldl segByte s).buffer.take (s.pos + (nonzero src).length) =
      s.buffer.take s.pos ++ nonzero src := by
  induction src generalizing first s with
  | nil => simp [nonzero]
  | cons byte src ih =>
    rw [List.zipIdx_cons, List.foldl_cons]
    by_cases zero : byte = 0
    · subst zero
      exact ih (first + 1) s room fits
    · have split : nonzero (byte :: src) = byte :: nonzero src := by simp [nonzero, zero]
      rw [split, List.length_cons] at room fits ⊢
      have next : segByte s (byte, first) =
          { header := s.header ||| 1 <<< UInt8.ofNat first, notzero := s.notzero + 1,
            buffer := s.buffer.set s.pos byte, pos := s.pos + 1, sz := s.sz - 1 } := by
        have some_ : 0 < s.sz := by omega
        simp [segByte, zero, some_]
      have rest := ih (first + 1) (segByte s (byte, first)) (by rw [next]; simp only; omega)
        (by rw [next]; simp only [List.length_set]; omega)
      rw [next] at rest ⊢
      have shift : s.pos + ((nonzero src).length + 1) = s.pos + 1 + (nonzero src).length := by omega
      simp only at rest
      rw [shift, rest, take_set_succ _ _ _ (by omega), List.append_assoc]
      rfl

-- Whether `pack_seg` leaves the word to a run.
def Joins (word : List UInt8) (n : Nat) : Prop :=
  (nonzero word).length = 8 ∨ (nonzero word).length = 7 ∧ 0 < n ∨ (nonzero word).length = 6 ∧ 0 < n

instance (word : List UInt8) (n : Nat) : Decidable (Joins word n) :=
  inferInstanceAs (Decidable (_ ∨ _ ∨ _))

theorem packSeg_joins (src buffer : List UInt8) (pos : Nat) (sz : Int) (n : Nat)
    (joins : Joins src n) : ∃ later, packSeg src buffer pos sz n = (later, if 0 < n then 8 else 10) ∧
      later.length = buffer.length ∧ later.take pos = buffer.take pos := by
  obtain ⟨notzero, _, length, kept⟩ := segLoop_frame src 0
    { header := 0, notzero := 0, buffer := buffer, pos := pos + 1, sz := sz - 1 } pos
    (Nat.le_succ pos)
  rw [Nat.zero_add] at notzero
  refine ⟨_, ?_, length, kept⟩
  unfold packSeg
  simp only [notzero]
  rcases joins with all | ⟨seven, run⟩ | ⟨six, run⟩
  · simp [all]
  · simp [seven, run]
  · simp [six, run]

theorem packSeg_sparse (src buffer : List UInt8) (pos : Nat) (sz : Int) (n : Nat)
    (sparse : ¬Joins src n) : ∃ later, packSeg src buffer pos sz n = (later, (segment src).length) ∧
      later.length = buffer.length ∧ later.take pos = buffer.take pos ∧
      (sz = buffer.length - pos → (segment src).length ≤ sz →
        later.take (pos + (segment src).length) = buffer.take pos ++ segment src) := by
  have frame := segLoop_frame src 0
    { header := 0, notzero := 0, buffer := buffer, pos := pos + 1, sz := sz - 1 } pos
    (Nat.le_succ pos)
  have written := segLoop_written src 0
    { header := 0, notzero := 0, buffer := buffer, pos := pos + 1, sz := sz - 1 }
  simp only [Joins, not_or, not_and] at sparse
  unfold packSeg
  generalize src.zipIdx.foldl segByte
    { header := 0, notzero := 0, buffer := buffer, pos := pos + 1, sz := sz - 1 } = loop
    at frame written ⊢
  simp only [Nat.zero_add] at frame written
  obtain ⟨notzero, header, length, kept⟩ := frame
  have size : (segment src).length = (nonzero src).length + 1 := rfl
  have apart : ¬(((nonzero src).length = 7 ∨ (nonzero src).length = 6) ∧ 0 < n) := by tauto
  simp only [notzero, apart, sparse.1, if_false, size]
  by_cases room : sz - 1 < 0
  · rw [if_pos room]
    exact ⟨_, rfl, length, kept, fun _ enough => absurd enough (by omega)⟩
  · rw [if_neg room]
    refine ⟨_, rfl, by simpa using length, by rw [List.take_set_of_le le_rfl, kept], ?_⟩
    intro fits enough
    have bytes := written (by omega) (by omega)
    have shift : pos + ((nonzero src).length + 1) = pos + 1 + (nonzero src).length := by omega
    have front : (buffer.take (pos + 1)).set pos loop.header = buffer.take pos ++ [loop.header] := by
      rw [← List.take_set, take_set_succ _ _ _ (by omega)]
    rw [shift, List.take_set, bytes, List.set_append_left _ _ (by rw [List.length_take]; omega),
      front, header, List.append_assoc]
    rfl

theorem length_flatten (run : List (List UInt8)) (words : ∀ word ∈ run, word.length = 8) :
    run.flatten.length = 8 * run.length := by
  rw [List.length_flatten, List.map_congr_left words, List.map_const', List.sum_replicate,
    smul_eq_mul, Nat.mul_comm]

theorem length_runBytes (run : List (List UInt8)) (words : ∀ word ∈ run, word.length = 8)
    (some_ : run ≠ []) : (runBytes run).length = 8 * run.length + 2 := by
  rw [runBytes, if_neg some_, List.length_cons, List.length_cons, length_flatten run words]

theorem set_set (front back : List UInt8) (a b c d : UInt8) :
    ((front ++ a :: b :: back).set front.length c).set (front.length + 1) d =
      front ++ c :: d :: back := by
  rw [List.set_append_right _ _ le_rfl, Nat.sub_self, List.set_cons_zero,
    List.set_append_right _ _ (by omega), Nat.add_sub_cancel_left]
  rfl

theorem writeFf_run (src block : List UInt8) (pos n : Nat) (run : List (List UInt8))
    (words : ∀ word ∈ run, word.length = 8) (some_ : run ≠ []) (turns : (n + 7) / 8 = run.length)
    (source : src.take n ++ List.replicate (8 * run.length - n) 0 = run.flatten)
    (fits : pos + (runBytes run).length ≤ block.length) :
    writeFf src block pos n =
      block.take pos ++ runBytes run ++ block.drop (pos + (runBytes run).length) := by
  have total := length_runBytes run words some_
  have pieces : ∃ a b, block =
      block.take pos ++ a :: b :: (block.drop (pos + 2)) := by
    have inside : pos + 1 < block.length := by omega
    refine ⟨block[pos], block[pos + 1], ?_⟩
    rw [← List.drop_eq_getElem_cons, ← List.drop_eq_getElem_cons, List.take_append_drop]
  obtain ⟨a, b, split⟩ := pieces
  have front : (block.take pos).length = pos := by rw [List.length_take]; omega
  have marked : (block.set pos 0xff).set (pos + 1) (UInt8.ofNat (run.length - 1)) =
      block.take pos ++ 0xff :: UInt8.ofNat (run.length - 1) :: block.drop (pos + 2) := by
    have set := set_set (block.take pos) (block.drop (pos + 2)) a b 0xff
      (UInt8.ofNat (run.length - 1))
    rw [front, ← split] at set
    exact set
  have taken : (src.take n).length = n := by
    have length := congrArg List.length source
    rw [List.length_append, List.length_replicate, length_flatten run words] at length
    omega
  have copied : memcpy (block.take pos ++ 0xff :: UInt8.ofNat (run.length - 1) ::
      block.drop (pos + 2)) (pos + 2) run.flatten =
        block.take pos ++ runBytes run ++ block.drop (pos + (runBytes run).length) := by
    have head : (block.take pos ++ [0xff, UInt8.ofNat (run.length - 1)]).length = pos + 2 := by
      rw [List.length_append, front]
      rfl
    have whole : block.take pos ++ 0xff :: UInt8.ofNat (run.length - 1) :: block.drop (pos + 2) =
        block.take pos ++ [0xff, UInt8.ofNat (run.length - 1)] ++ block.drop (pos + 2) := by simp
    rw [memcpy, whole, ← head, List.take_left, List.drop_length_add_append, List.drop_drop, head,
      length_flatten run words, total, runBytes, if_neg some_]
    simp only [List.append_assoc, List.cons_append, List.nil_append, Nat.add_assoc]
    rw [Nat.add_comm 2]
  have second : n + pos + 2 = pos + 2 + (src.take n).length := by omega
  unfold writeFf
  simp only [turns, Nat.mul_div_cancel _ (by decide : 0 < 8)]
  rw [marked, second, memcpy_memcpy _ _ _ _ (by simp; omega), Nat.mul_comm run.length, source, copied]

-- The words before `8 * k` are in the output, or in the run that is still to be written.
structure Packed (srcv : List UInt8) (k room : Nat) (emitted : List UInt8)
    (run : List (List UInt8)) (s : PackLoop) : Prop where
  ffN : s.ffN = run.length
  few : run.length < 256
  words : ∀ word ∈ run, word.length = 8
  start : run ≠ [] → s.ffDesstart = emitted.length ∧ s.ffSrcstart + 8 * run.length = 8 * k ∧
    (srcv.drop s.ffSrcstart).take (8 * run.length) = run.flatten
  size : s.size = emitted.length + (runBytes run).length
  pos : s.pos = s.size
  bufsz : s.bufsz = room - s.size
  length : s.buffer.length = room
  content : s.size ≤ room → s.buffer.take emitted.length = emitted

def joinStep (state : List UInt8 × List (List UInt8)) (word : List UInt8) :
    List UInt8 × List (List UInt8) :=
  if state.2.length + 1 = 256 then (state.1 ++ runBytes (state.2 ++ [word]), [])
  else (state.1, state.2 ++ [word])

def packStep (state : List UInt8 × List (List UInt8)) (word : List UInt8) :
    List UInt8 × List (List UInt8) :=
  if Joins word state.2.length then joinStep state word
  else (state.1 ++ runBytes state.2 ++ segment word, [])

theorem writeRun_eq (s : PackLoop) (srcv : List UInt8) (n : Nat) :
    s.writeRun srcv n = { s with buffer := (s.writeRun srcv n).buffer } := by
  unfold PackLoop.writeRun
  split_ifs <;> rfl

theorem writeRun_written (s : PackLoop) (srcv emitted : List UInt8) (room n : Nat)
    (run : List (List UInt8)) (words : ∀ word ∈ run, word.length = 8) (some_ : run ≠ [])
    (turns : (n + 7) / 8 = run.length) (start : s.ffDesstart = emitted.length)
    (source : (srcv.drop s.ffSrcstart).take n ++ List.replicate (8 * run.length - n) 0 = run.flatten)
    (length : s.buffer.length = room)
    (left : 0 ≤ s.bufsz → emitted.length + (runBytes run).length ≤ room ∧
      s.buffer.take emitted.length = emitted) :
    (s.writeRun srcv n).buffer.length = room ∧
      (0 ≤ s.bufsz → (s.writeRun srcv n).buffer =
        emitted ++ runBytes run ++ s.buffer.drop (emitted.length + (runBytes run).length)) := by
  have written : 0 ≤ s.bufsz → (s.writeRun srcv n).buffer =
      emitted ++ runBytes run ++ s.buffer.drop (emitted.length + (runBytes run).length) := by
    intro enough
    obtain ⟨fits, before⟩ := left enough
    rw [PackLoop.writeRun, if_pos enough]
    simp only
    rw [start, writeFf_run _ _ _ _ run words some_ turns source (by rw [length]; exact fits), before]
  refine ⟨?_, written⟩
  by_cases enough : 0 ≤ s.bufsz
  · have fits := (left enough).1
    rw [written enough, List.length_append, List.length_append, List.length_drop, length]
    omega
  · rw [PackLoop.writeRun, if_neg enough, length]

theorem writeRun_whole (s : PackLoop) (srcv emitted : List UInt8) (room : Nat)
    (run : List (List UInt8)) (words : ∀ word ∈ run, word.length = 8) (some_ : run ≠ [])
    (start : s.ffDesstart = emitted.length)
    (source : (srcv.drop s.ffSrcstart).take (8 * run.length) = run.flatten)
    (length : s.buffer.length = room)
    (left : 0 ≤ s.bufsz → emitted.length + (runBytes run).length ≤ room ∧
      s.buffer.take emitted.length = emitted) :
    (s.writeRun srcv (8 * run.length)).buffer.length = room ∧
      (0 ≤ s.bufsz → (s.writeRun srcv (8 * run.length)).buffer =
        emitted ++ runBytes run ++ s.buffer.drop (emitted.length + (runBytes run).length)) := by
  refine writeRun_written s srcv emitted room _ run words some_ (by omega) start ?_ length left
  rw [Nat.sub_self, List.replicate_zero, List.append_nil]
  exact source

-- The word of the source at `8 * k`, padded where the source ends inside of it.
def wordAt (srcv : List UInt8) (srcsz k : Nat) : List UInt8 :=
  let src := ((srcv.take srcsz).drop (8 * k)).take 8
  src ++ List.replicate (8 - src.length) 0

theorem length_wordAt (srcv : List UInt8) (srcsz k : Nat) : (wordAt srcv srcsz k).length = 8 := by
  simp only [wordAt, List.length_append, List.length_replicate, List.length_take]
  omega

theorem wordAt_whole (srcv : List UInt8) (srcsz k : Nat) (inside : 8 * k + 8 ≤ srcsz)
    (memory : srcsz ≤ srcv.length) : wordAt srcv srcsz k = (srcv.drop (8 * k)).take 8 := by
  have read : ((srcv.take srcsz).drop (8 * k)).take 8 = (srcv.drop (8 * k)).take 8 := by
    rw [List.drop_take, List.take_take, Nat.min_eq_left (by omega)]
  have eight : ((srcv.drop (8 * k)).take 8).length = 8 := by
    rw [List.length_take, List.length_drop]
    omega
  unfold wordAt
  simp only [read, eight, Nat.sub_self, List.replicate_zero, List.append_nil]

theorem packWord_eq (srcv : List UInt8) (srcsz : Nat) (s : PackLoop) (k : Nat) (later : List UInt8)
    (n : Nat)
    (returned : packSeg (wordAt srcv srcsz k) s.buffer s.pos s.bufsz s.ffN = (later, n)) :
    packWord srcv srcsz s (8 * k) =
      { PackLoop.count { s with buffer := later, bufsz := s.bufsz - n } srcv (8 * k) n with
        pos := (PackLoop.count { s with buffer := later, bufsz := s.bufsz - n } srcv (8 * k) n).pos + n
        size :=
          (PackLoop.count { s with buffer := later, bufsz := s.bufsz - n } srcv (8 * k) n).size + n } := by
  unfold wordAt at returned
  simp only at returned
  unfold packWord
  simp only [returned]

theorem packWord_inside (srcv : List UInt8) (srcsz : Nat) (s : PackLoop) (k : Nat)
    (later : List UInt8) (some_ : 0 < s.ffN) (last : s.ffN + 1 ≠ 256)
    (returned : packSeg (wordAt srcv srcsz k) s.buffer s.pos s.bufsz s.ffN = (later, 8)) :
    packWord srcv srcsz s (8 * k) =
      { s with buffer := later, pos := s.pos + 8, bufsz := s.bufsz - 8, ffN := s.ffN + 1,
               size := s.size + 8 } := by
  rw [packWord_eq srcv srcsz s k later 8 returned, PackLoop.count, if_neg (by decide),
    if_pos ⟨rfl, some_⟩]
  simp only
  rw [if_neg last]
  rfl

theorem Packed.joins {srcv : List UInt8} {k room : Nat} {emitted : List UInt8}
    {run : List (List UInt8)} {s : PackLoop} (packed : Packed srcv k room emitted run s)
    (srcsz : Nat) (word : List UInt8) (read : word = (srcv.drop (8 * k)).take 8)
    (eight : word.length = 8) (joins : Joins (wordAt srcv srcsz k) run.length) :
    Packed srcv (k + 1) room (joinStep (emitted, run) word).1 (joinStep (emitted, run) word).2
      (packWord srcv srcsz s (8 * k)) := by
  obtain ⟨ffN, few, words, start, size, pos, bufsz, length, content⟩ := packed
  obtain ⟨later, returned, length', kept⟩ :=
    packSeg_joins (wordAt srcv srcsz k) s.buffer s.pos s.bufsz run.length joins
  have whole : ∀ w ∈ run ++ [word], w.length = 8 := by
    intro w member
    rcases List.mem_append.mp member with old | new
    · exact words w old
    · rw [List.mem_singleton.mp new, eight]
  have total := length_runBytes (run ++ [word]) whole (by simp)
  rw [List.length_append, List.length_singleton] at total
  have front : emitted.length ≤ s.pos := by omega
  have before : s.size ≤ room → later.take emitted.length = emitted := by
    intro enough
    rw [take_shorter kept front, content enough]
  by_cases first : run = []
  · subst first
    have here : s.pos = emitted.length := by
      rw [pos, size]
      simp [runBytes]
    have step : packWord srcv srcsz s (8 * k) =
        { buffer := later, pos := s.pos + 10, bufsz := s.bufsz - 10, ffSrcstart := 8 * k,
          ffDesstart := s.pos, ffN := 1, size := s.size + 10 } := by
      rw [packWord_eq srcv srcsz s k later _ (by rw [ffN]; exact returned)]
      rfl
    rw [step, joinStep, if_neg (by simp)]
    refine ⟨rfl, (by decide : 1 < 256), whole, ?_, ?_, congrArg (· + 10) pos, ?_,
      length'.trans length, ?_⟩
    · intro _
      exact ⟨here, rfl, by simpa using read.symm⟩
    · rw [← pos, here]
      exact congrArg (emitted.length + ·) total.symm
    · simp only
      omega
    · simp only
      intro enough
      exact before (by omega)
  · have some_ : 0 < run.length := List.length_pos_iff.mpr first
    obtain ⟨des, position, source⟩ := start first
    have old := length_runBytes run words first
    have joined : (srcv.drop s.ffSrcstart).take (8 * (run ++ [word]).length) =
        (run ++ [word]).flatten := by
      rw [List.length_append, List.length_singleton, Nat.mul_add, List.take_add, source,
        List.drop_drop, position, ← read]
      simp
    by_cases last : run.length + 1 = 256
    · have size' : 8 * (run ++ [word]).length = 256 * 8 := by
        rw [List.length_append, List.length_singleton, last]
      obtain ⟨filled, written⟩ := writeRun_whole
        { s with buffer := later, bufsz := s.bufsz - (8 : Nat), ffN := run.length + 1 } srcv emitted room
        (run ++ [word]) whole (by simp) des joined (length'.trans length) (by
          simp only
          intro enough
          exact ⟨by omega, before (by omega)⟩)
      rw [size'] at filled written
      have step : packWord srcv srcsz s (8 * k) =
          { PackLoop.writeRun { s with buffer := later, bufsz := s.bufsz - (8 : Nat), ffN := run.length + 1 }
              srcv (256 * 8) with ffN := 0, pos := s.pos + 8, size := s.size + 8 } := by
        rw [packWord_eq srcv srcsz s k later 8 (by rw [ffN, returned, if_pos some_]),
          PackLoop.count, if_neg (by decide), if_pos ⟨rfl, by rw [ffN]; exact some_⟩]
        simp only [ffN]
        rw [if_pos last, writeRun_eq]
      rw [step, joinStep, if_pos last]
      refine ⟨rfl, by simp, by simp, by simp, ?_, congrArg (· + 8) pos, ?_, filled, ?_⟩
      · change s.size + 8 = (emitted ++ runBytes (run ++ [word])).length + 0
        rw [List.length_append, total]
        omega
      · rw [writeRun_eq]
        simp only
        omega
      · intro enough
        simp only at enough ⊢
        rw [written (by simp only; omega), List.take_left]
    · have step : packWord srcv srcsz s (8 * k) =
          { s with buffer := later, pos := s.pos + 8, bufsz := s.bufsz - 8, ffN := run.length + 1,
                   size := s.size + 8 } := by
        rw [packWord_inside srcv srcsz s k later (ffN ▸ some_) (ffN ▸ last)
          (by rw [ffN, returned, if_pos some_]), ffN]
      rw [step, joinStep, if_neg last]
      refine ⟨by simp, ?_, whole, ?_, ?_, congrArg (· + 8) pos, ?_, length'.trans length, ?_⟩
      · simp only [List.length_append, List.length_singleton]
        omega
      · intro _
        refine ⟨des, ?_, joined⟩
        simp only [List.length_append, List.length_singleton]
        omega
      · simp only [total]
        omega
      · simp only
        omega
      · simp only
        intro enough
        exact before (by omega)

theorem Packed.sparse {srcv : List UInt8} {k room : Nat} {emitted : List UInt8}
    {run : List (List UInt8)} {s : PackLoop} (packed : Packed srcv k room emitted run s)
    (srcsz : Nat) (sparse : ¬Joins (wordAt srcv srcsz k) run.length) :
    Packed srcv (k + 1) room (emitted ++ runBytes run ++ segment (wordAt srcv srcsz k)) []
      (packWord srcv srcsz s (8 * k)) := by
  obtain ⟨ffN, few, words, start, size, pos, bufsz, length, content⟩ := packed
  obtain ⟨later, returned, length', kept, bytes⟩ :=
    packSeg_sparse (wordAt srcv srcsz k) s.buffer s.pos s.bufsz run.length sparse
  have eight := length_wordAt srcv srcsz k
  have count := packWord_eq srcv srcsz s k later _ (by rw [ffN]; exact returned)
  generalize wordAt srcv srcsz k = word at *
  have front : emitted.length ≤ s.pos := by omega
  have few' : (nonzero word).length ≤ 8 := by
    rw [← eight]
    exact List.length_filter_le _ _
  have small : (segment word).length ≠ 10 := by
    rw [segment, List.length_cons]
    omega
  have alone : ¬((segment word).length = 8 ∧ 0 < run.length) := by
    rintro ⟨seven, some_⟩
    rw [segment, List.length_cons] at seven
    exact sparse (.inr (.inl ⟨by omega, some_⟩))
  rw [PackLoop.count, if_neg small, if_neg (by rw [ffN]; exact alone)] at count
  have after : s.size + (segment word).length ≤ room →
      later.take (s.pos + (segment word).length) = s.buffer.take s.pos ++ segment word :=
    fun enough => bytes (by rw [bufsz, length, pos]) (by omega)
  by_cases first : run = []
  · subst first
    have here : s.pos = emitted.length := by
      rw [pos, size]
      simp [runBytes]
    have step : packWord srcv srcsz s (8 * k) =
        { s with buffer := later, bufsz := s.bufsz - (segment word).length,
                 pos := s.pos + (segment word).length, size := s.size + (segment word).length } := by
      rw [count]
      simp only [ffN, List.length_nil, lt_irrefl, if_false]
    rw [step]
    simp only [runBytes, if_true, List.append_nil]
    refine ⟨ffN, by simp, by simp, by simp, ?_, congrArg (· + (segment word).length) pos, ?_,
      length'.trans length, ?_⟩
    · simp only [List.length_append, runBytes, if_true, List.length_nil]
      omega
    · simp only
      push_cast
      omega
    · simp only
      intro enough
      rw [List.length_append, ← here, after enough, here, content (by omega)]
  · have some_ : 0 < run.length := List.length_pos_iff.mpr first
    obtain ⟨des, position, source⟩ := start first
    obtain ⟨filled, written⟩ := writeRun_whole
      { s with buffer := later, bufsz := s.bufsz - (segment word).length } srcv emitted room run
      words first des source (length'.trans length) (by
        simp only
        intro enough
        refine ⟨by omega, ?_⟩
        rw [take_shorter kept front, content (by omega)])
    have step : packWord srcv srcsz s (8 * k) =
        { PackLoop.writeRun { s with buffer := later, bufsz := s.bufsz - (segment word).length }
            srcv (8 * run.length) with
          ffN := 0, pos := s.pos + (segment word).length, size := s.size + (segment word).length } := by
      rw [count]
      simp only [ffN]
      rw [if_pos some_, Nat.mul_comm, writeRun_eq]
    rw [step]
    refine ⟨rfl, by simp, by simp, by simp, ?_, congrArg (· + (segment word).length) pos, ?_, filled,
      ?_⟩
    · change s.size + (segment word).length =
        (emitted ++ runBytes run ++ segment word).length + 0
      rw [List.length_append, List.length_append, size, Nat.add_zero]
    · rw [writeRun_eq]
      simp only
      push_cast
      omega
    · intro enough
      simp only at enough ⊢
      have tail : (later.drop s.pos).take (segment word).length = segment word := by
        have cut := congrArg (List.drop s.pos) (after enough)
        rw [List.drop_take, Nat.add_sub_cancel_left, List.drop_append_of_le_length
          (by rw [List.length_take]; omega), List.drop_take, Nat.sub_self, List.take_zero,
          List.nil_append] at cut
        exact cut
      have here : emitted.length + (runBytes run).length = s.pos := by omega
      rw [written (by simp only; omega), here, List.length_append, List.take_length_add_append, tail]

-- What `sproto_unpack` makes of bytes: words in the bitmap form, and runs.
inductive Codes : List UInt8 → List UInt8 → Prop where
  | nil : Codes [] []
  | run (run : List (List UInt8)) (words : ∀ word ∈ run, word.length = 8) (some_ : run ≠ [])
      (few : run.length ≤ 256) {bytes out : List UInt8} (rest : Codes bytes out) :
      Codes (runBytes run ++ bytes) (run.flatten ++ out)
  | segment (word : List UInt8) (eight : word.length = 8) (sparse : (nonzero word).length ≠ 8)
      {bytes out : List UInt8} (rest : Codes bytes out) :
      Codes (segment word ++ bytes) (word ++ out)

theorem Codes.append {bytes out more later : List UInt8} (first : Codes bytes out)
    (second : Codes more later) : Codes (bytes ++ more) (out ++ later) := by
  induction first with
  | nil => exact second
  | run run words some_ few rest ih =>
    rw [List.append_assoc, List.append_assoc]
    exact .run run words some_ few ih
  | segment word eight sparse rest ih =>
    rw [List.append_assoc, List.append_assoc]
    exact .segment word eight sparse ih

theorem runBytes_codes (run : List (List UInt8)) (words : ∀ word ∈ run, word.length = 8)
    (few : run.length ≤ 256) : Codes (runBytes run) run.flatten := by
  by_cases none_ : run = []
  · subst none_
    exact .nil
  · have codes := Codes.run run words none_ few .nil
    rwa [List.append_nil, List.append_nil] at codes

theorem joinStep_codes (emitted out word : List UInt8) (run : List (List UInt8))
    (codes : Codes emitted out) (words : ∀ w ∈ run, w.length = 8) (eight : word.length = 8) :
    ∃ out', Codes (joinStep (emitted, run) word).1 out' ∧
      out' ++ (joinStep (emitted, run) word).2.flatten = out ++ run.flatten ++ word := by
  have whole : ∀ w ∈ run ++ [word], w.length = 8 := by
    intro w member
    rcases List.mem_append.mp member with old | new
    · exact words w old
    · rw [List.mem_singleton.mp new, eight]
  unfold joinStep
  split_ifs with last
  · refine ⟨_, codes.append (runBytes_codes (run ++ [word]) whole ?_), by simp⟩
    rw [List.length_append, List.length_singleton]
    exact last.le
  · exact ⟨out, codes, by simp⟩

theorem packStep_codes (emitted out word : List UInt8) (run : List (List UInt8))
    (codes : Codes emitted out) (words : ∀ w ∈ run, w.length = 8) (few : run.length < 256)
    (eight : word.length = 8) :
    ∃ out', Codes (packStep (emitted, run) word).1 out' ∧
      out' ++ (packStep (emitted, run) word).2.flatten = out ++ run.flatten ++ word := by
  unfold packStep
  split_ifs with joins
  · exact joinStep_codes emitted out word run codes words eight
  · have sparse : (nonzero word).length ≠ 8 := fun all => joins (.inl all)
    have seg := Codes.segment word eight sparse .nil
    rw [List.append_nil, List.append_nil] at seg
    exact ⟨_, (codes.append (runBytes_codes run words few.le)).append seg, by simp⟩

theorem Packed.step {srcv : List UInt8} {k room : Nat} {emitted : List UInt8}
    {run : List (List UInt8)} {s : PackLoop} (packed : Packed srcv k room emitted run s)
    (srcsz : Nat) (inside : 8 * k + 8 ≤ srcsz) (memory : srcsz ≤ srcv.length) :
    Packed srcv (k + 1) room (packStep (emitted, run) (wordAt srcv srcsz k)).1
      (packStep (emitted, run) (wordAt srcv srcsz k)).2 (packWord srcv srcsz s (8 * k)) := by
  unfold packStep
  split_ifs with joins
  · exact packed.joins srcsz _ (wordAt_whole srcv srcsz k inside memory)
      (length_wordAt srcv srcsz k) joins
  · exact packed.sparse srcsz joins

def coded (words : List (List UInt8)) : List UInt8 × List (List UInt8) :=
  words.foldl packStep ([], [])

def wordsOf (srcv : List UInt8) (srcsz n : Nat) : List (List UInt8) :=
  (List.range n).map (wordAt srcv srcsz)

theorem wordsOf_succ (srcv : List UInt8) (srcsz n : Nat) :
    wordsOf srcv srcsz (n + 1) = wordsOf srcv srcsz n ++ [wordAt srcv srcsz n] := by
  rw [wordsOf, List.range_succ, List.map_append]
  rfl

theorem coded_append (words : List (List UInt8)) (word : List UInt8) :
    coded (words ++ [word]) = packStep (coded words) word := by
  rw [coded, List.foldl_append]
  rfl

theorem packWords_packed (srcv buffer : List UInt8) (srcsz n : Nat) (inside : 8 * n ≤ srcsz)
    (memory : srcsz ≤ srcv.length) :
    Packed srcv n buffer.length (coded (wordsOf srcv srcsz n)).1 (coded (wordsOf srcv srcsz n)).2
      (((List.range n).map (8 * ·)).foldl (packWord srcv srcsz)
        { buffer := buffer, pos := 0, bufsz := buffer.length, ffSrcstart := 0, ffDesstart := 0,
          ffN := 0, size := 0 }) := by
  induction n with
  | zero => exact ⟨rfl, Nat.zero_lt_succ 255, by simp [wordsOf, coded], by simp [wordsOf, coded], rfl, rfl,
      by simp, rfl, by simp [wordsOf, coded]⟩
  | succ n ih =>
    rw [List.range_succ, List.map_append, List.foldl_append, List.map_singleton, wordsOf_succ,
      coded_append]
    exact (ih (by omega)).step srcsz (by omega) memory

theorem coded_codes (srcv : List UInt8) (srcsz n : Nat) (inside : 8 * n ≤ srcsz)
    (memory : srcsz ≤ srcv.length) :
    ∃ out, Codes (coded (wordsOf srcv srcsz n)).1 out ∧
      out ++ (coded (wordsOf srcv srcsz n)).2.flatten = srcv.take (8 * n) := by
  induction n with
  | zero => exact ⟨[], .nil, rfl⟩
  | succ n ih =>
    obtain ⟨out, codes, whole⟩ := ih (by omega)
    have packed := packWords_packed srcv [] srcsz n (by omega) memory
    obtain ⟨out', codes', same⟩ := packStep_codes _ out _ _ codes packed.words packed.few
      (length_wordAt srcv srcsz n)
    rw [wordsOf_succ, coded_append]
    refine ⟨out', codes', ?_⟩
    rw [same, whole, Nat.mul_succ, List.take_add, wordAt_whole srcv srcsz n (by omega) memory]

theorem sprotoPack_codes (srcv buffer : List UInt8) (aligned : 8 ∣ srcv.length) :
    ∃ bytes, Codes bytes srcv ∧ (sprotoPack srcv buffer).2 = bytes.length ∧
      (bytes.length ≤ buffer.length →
        (sprotoPack srcv buffer).1.take bytes.length = bytes) := by
  obtain ⟨n, length⟩ := aligned
  have packed := packWords_packed srcv buffer srcv.length n length.ge le_rfl
  obtain ⟨out, codes, whole⟩ := coded_codes srcv srcv.length n length.ge le_rfl
  have turns : (srcv.length + 7) / 8 = n := by omega
  rw [List.take_of_length_le length.le] at whole
  unfold sprotoPack sprotoPackFrom packWords
  rw [turns]
  generalize coded (wordsOf srcv srcv.length n) = state at packed codes whole
  obtain ⟨emitted, run⟩ := state
  simp only at packed codes whole
  generalize ((List.range n).map (8 * ·)).foldl (packWord srcv srcv.length) _ = s at packed ⊢
  refine ⟨emitted ++ runBytes run, ?_, ?_⟩
  · have last := codes.append (runBytes_codes run packed.words packed.few.le)
    rwa [whole] at last
  by_cases first : run = []
  · have none_ : s.ffN = 0 := by rw [packed.ffN, first, List.length_nil]
    have size := packed.size
    have content := packed.content
    simp only [none_, first, runBytes, if_true, List.append_nil, List.length_nil, Nat.add_zero,
      Nat.zero_ne_one, if_false, Nat.not_lt_zero] at size ⊢
    exact ⟨size, fun enough => content (by rw [size]; exact enough)⟩
  · obtain ⟨des, position, source⟩ := packed.start first
    have some_ : 0 < run.length := List.length_pos_iff.mpr first
    have same : (if s.ffN = 1 then s.writeRun srcv 8
        else if 1 < s.ffN then s.writeRun srcv (srcv.length - s.ffSrcstart) else s) =
          s.writeRun srcv (8 * run.length) := by
      rw [packed.ffN]
      split_ifs with one more
      · rw [one]
      · congr 1
        omega
      · omega
    obtain ⟨_, written⟩ := writeRun_whole s srcv emitted buffer.length run packed.words first des
      source packed.length (by
        intro enough
        have size := packed.size
        have bufsz := packed.bufsz
        exact ⟨by omega, packed.content (by omega)⟩)
    have size := packed.size
    have bufsz := packed.bufsz
    simp only [same]
    rw [List.length_append]
    refine ⟨?_, ?_⟩
    · rw [writeRun_eq]
      exact size
    · intro enough
      rw [written (by omega), ← List.length_append, List.take_left]

-- Bytes that were put out, with `src` left to read; their place is told only where there is room.
structure Wrote (s s' : UnpackLoop) (out src : List UInt8) : Prop where
  src : s'.src = src
  size : s'.size = s.size + out.length
  room : s.bufsz = s.buffer.length - s.pos → out.length ≤ s.bufsz →
    s'.buffer.length = s.buffer.length ∧ s'.pos = s.pos + out.length ∧
      s'.bufsz = s.bufsz - out.length ∧
      s'.buffer.take (s.pos + out.length) = s.buffer.take s.pos ++ out

theorem Wrote.refl (s : UnpackLoop) : Wrote s s [] s.src :=
  ⟨rfl, rfl, fun _ _ => ⟨rfl, rfl, by simp, by simp⟩⟩

theorem Wrote.trans {a b c : UnpackLoop} {first second src later : List UInt8}
    (one : Wrote a b first src) (two : Wrote b c second later) :
    Wrote a c (first ++ second) later := by
  refine ⟨two.src, ?_, ?_⟩
  · rw [two.size, one.size, List.length_append, Nat.add_assoc]
  · intro fits enough
    rw [List.length_append] at enough
    obtain ⟨length, pos, bufsz, bytes⟩ := one.room fits (by omega)
    obtain ⟨length', pos', bufsz', bytes'⟩ := two.room (by omega) (by omega)
    refine ⟨by omega, by rw [List.length_append]; omega, by rw [List.length_append]; omega, ?_⟩
    rw [List.length_append, ← Nat.add_assoc, ← pos, bytes', pos, bytes, List.append_assoc]

theorem Wrote.read {s s' : UnpackLoop} {out src : List UInt8} (more : List UInt8)
    (wrote : Wrote { s with src := more } s' out src) : Wrote s s' out src :=
  ⟨wrote.src, wrote.size, wrote.room⟩

theorem put_wrote (s : UnpackLoop) (byte : UInt8) : Wrote s (s.put byte) [byte] s.src := by
  unfold UnpackLoop.put
  split_ifs with enough
  · refine ⟨rfl, rfl, ?_⟩
    intro fits room
    exact ⟨List.length_set, rfl, rfl, take_set_succ _ _ _ (by omega)⟩
  · refine ⟨rfl, rfl, fun _ room => absurd room ?_⟩
    rw [List.length_singleton]
    omega

def flags (word : List UInt8) : List Bool := word.map fun byte => decide (byte ≠ 0)

theorem unpackBits_wrote (word rest : List UInt8) (s : UnpackLoop)
    (src : s.src = nonzero word ++ rest) :
    ∃ s', (flags word).foldlM unpackBit s = .ok s' ∧ Wrote s s' word rest := by
  induction word generalizing s with
  | nil =>
    have here := Wrote.refl s
    rw [show s.src = rest from src] at here
    exact ⟨s, rfl, here⟩
  | cons byte word ih =>
    rw [flags, List.map_cons, List.foldlM_cons]
    by_cases zero : byte = 0
    · subst zero
      obtain ⟨s', done, wrote⟩ := ih (s.put 0) ((put_wrote s 0).src.trans src)
      exact ⟨s', done, (put_wrote s 0).trans wrote⟩
    · have split : nonzero (byte :: word) ++ rest = byte :: (nonzero word ++ rest) := by
        simp [nonzero, zero]
      rw [split] at src
      have first := put_wrote { s with src := nonzero word ++ rest } byte
      obtain ⟨s', done, wrote⟩ := ih _ first.src
      refine ⟨s', ?_, (first.read _).trans wrote⟩
      simp only [unpackBit, zero, ne_eq, not_false_eq_true, decide_true, if_true, src]
      exact done

def bitsHeader (bits : List Bool) : UInt8 :=
  bits.zipIdx.foldl (fun header item =>
    if item.1 then header ||| 1 <<< UInt8.ofNat item.2 else header) 0

theorem headerOf_eq (word : List UInt8) : headerOf word = bitsHeader (flags word) := by
  rw [headerOf, bitsHeader, flags, List.zipIdx_map, List.foldl_map]
  refine List.foldl_ext _ _ _ ?_
  intro header item _
  simp [setBit]

theorem bits_of_header (bits : List Bool) (eight : bits.length = 8) :
    ((List.range 8).map fun i => decide ((bitsHeader bits >>> UInt8.ofNat i) &&& 1 ≠ 0)) = bits := by
  have all : ∀ a b c d e f g h : Bool, ((List.range 8).map fun i =>
      decide ((bitsHeader [a, b, c, d, e, f, g, h] >>> UInt8.ofNat i) &&& 1 ≠ 0)) =
        [a, b, c, d, e, f, g, h] := by
    decide +kernel
  match bits, eight with
  | [a, b, c, d, e, f, g, h], _ => exact all a b c d e f g h

theorem flags_of_header (word : List UInt8) (eight : word.length = 8) :
    ((List.range 8).map fun i => decide ((headerOf word >>> UInt8.ofNat i) &&& 1 ≠ 0)) =
      flags word := by
  rw [headerOf_eq]
  exact bits_of_header _ (by rw [flags, List.length_map, eight])

theorem header_not_ff (word : List UInt8) (eight : word.length = 8)
    (sparse : (nonzero word).length ≠ 8) : headerOf word ≠ 0xff := by
  intro full
  have bits := flags_of_header word eight
  have ones : ((List.range 8).map fun i => decide (((0xff : UInt8) >>> UInt8.ofNat i) &&& 1 ≠ 0)) =
      List.replicate 8 true := by
    decide
  rw [full, ones, flags] at bits
  refine sparse ?_
  rw [nonzero, List.filter_eq_self.mpr, eight]
  intro byte member
  have set := List.mem_map_of_mem (f := fun byte : UInt8 => decide (byte ≠ 0)) member
  rw [← bits] at set
  exact List.eq_of_mem_replicate set

theorem unpackLoop_segment (turns : Nat) (s : UnpackLoop) (word bytes : List UInt8)
    (eight : word.length = 8) (sparse : (nonzero word).length ≠ 8)
    (src : s.src = segment word ++ bytes) :
    ∃ s', unpackLoop (turns + 1) s = unpackLoop turns s' ∧ Wrote s s' word bytes := by
  obtain ⟨s', done, wrote⟩ := unpackBits_wrote word bytes
    { s with src := nonzero word ++ bytes } rfl
  refine ⟨s', ?_, wrote.read _⟩
  rw [← flags_of_header word eight, List.foldlM_map] at done
  rw [unpackLoop, src]
  simp only [segment, List.cons_append, if_neg (header_not_ff word eight sparse), done]

theorem unpackLoop_run (turns : Nat) (s : UnpackLoop) (run : List (List UInt8))
    (words : ∀ word ∈ run, word.length = 8) (some_ : run ≠ []) (few : run.length ≤ 256)
    (bytes : List UInt8) (src : s.src = runBytes run ++ bytes) :
    ∃ s', unpackLoop (turns + 1) s = unpackLoop turns s' ∧ Wrote s s' run.flatten bytes := by
  have positive : 0 < run.length := List.length_pos_iff.mpr some_
  have size := length_flatten run words
  have count : ((UInt8.ofNat (run.length - 1)).toNat + 1) * 8 = run.flatten.length := by
    rw [UInt8.toNat_ofNat', Nat.mod_eq_of_lt (by omega)]
    omega
  have front : (run.flatten ++ bytes).take run.flatten.length = run.flatten := List.take_left
  have back : (run.flatten ++ bytes).drop run.flatten.length = bytes := List.drop_left
  rw [runBytes, if_neg some_] at src
  rw [unpackLoop, src]
  simp only [List.cons_append, if_true, count]
  rw [if_neg (by rw [List.length_append]; omega), front, back]
  refine ⟨_, rfl, rfl, rfl, ?_⟩
  intro fits enough
  simp only [enough, if_true]
  have inside : s.pos + run.flatten.length ≤ s.buffer.length := by omega
  exact ⟨length_memcpy _ _ _ inside, trivial, trivial, take_memcpy _ _ _ inside⟩

theorem Codes.unpacked {bytes out : List UInt8} (codes : Codes bytes out) (turns : Nat)
    (s : UnpackLoop) (src : s.src = bytes) (enough : bytes.length < turns) :
    ∃ s', unpackLoop turns s = some (.size s'.size s'.buffer) ∧ Wrote s s' out [] := by
  induction codes generalizing turns s with
  | nil =>
    obtain ⟨more, rfl⟩ : ∃ more, turns = more + 1 := ⟨turns - 1, by omega⟩
    refine ⟨s, ?_, src ▸ Wrote.refl s⟩
    rw [unpackLoop, src]
  | run run words some_ few rest ih =>
    obtain ⟨more, rfl⟩ : ∃ more, turns = more + 1 := ⟨turns - 1, by omega⟩
    obtain ⟨middle, turn, wrote⟩ := unpackLoop_run more s run words some_ few _ src
    rw [List.length_append, length_runBytes run words some_] at enough
    obtain ⟨last, done, later⟩ := ih more middle wrote.src (by omega)
    exact ⟨last, turn.trans done, wrote.trans later⟩
  | segment word eight sparse rest ih =>
    obtain ⟨more, rfl⟩ : ∃ more, turns = more + 1 := ⟨turns - 1, by omega⟩
    obtain ⟨middle, turn, wrote⟩ := unpackLoop_segment more s word _ eight sparse src
    rw [List.length_append, Sproto.segment, List.length_cons] at enough
    obtain ⟨last, done, later⟩ := ih more middle wrote.src (by omega)
    exact ⟨last, turn.trans done, wrote.trans later⟩

theorem Codes.restored {bytes out : List UInt8} (codes : Codes bytes out) (restored : List UInt8) :
    ∃ buffer, sprotoUnpack bytes restored = some (.size out.length buffer) ∧
      (out.length ≤ restored.length → buffer.take out.length = out) := by
  obtain ⟨last, done, wrote⟩ := codes.unpacked (bytes.length + 1)
    { src := bytes, missing := false, buffer := restored, pos := 0, bufsz := restored.length,
      size := 0 } rfl (Nat.lt_succ_self _)
  have total := wrote.size
  rw [Nat.zero_add] at total
  rw [total] at done
  refine ⟨last.buffer, done, ?_⟩
  intro enough
  have content := (wrote.room (by simp) (by simpa using enough)).2.2.2
  simpa using content

theorem sprotoUnpack_sprotoPack (s packed restored : List UInt8) (aligned : 8 ∣ s.length)
    (room : (sprotoPack s packed).2 ≤ packed.length) :
    ∃ buffer, sprotoUnpack ((sprotoPack s packed).1.take (sprotoPack s packed).2) restored =
        some (.size s.length buffer) ∧
      (s.length ≤ restored.length → buffer.take s.length = s) := by
  obtain ⟨bytes, codes, size, content⟩ := sprotoPack_codes s packed aligned
  rw [size] at room ⊢
  rw [content room]
  exact codes.restored restored

def sampleWords : List UInt8 :=
  [8, 0, 0, 0, 3, 0, 2, 0] ++ [1, 2, 3, 4, 5, 6, 7, 8] ++ [1, 0, 3, 4, 5, 6, 0, 8] ++
    [0, 0, 0, 0, 0, 0, 0, 9]

theorem sample_repacked :
    ∃ buffer, sprotoUnpack
        ((sprotoPack sampleWords (List.replicate 24 0)).1.take
          (sprotoPack sampleWords (List.replicate 24 0)).2) (List.replicate 40 7) =
          some (.size 32 buffer) ∧ buffer.take 32 = sampleWords := by
  obtain ⟨buffer, done, same⟩ := sprotoUnpack_sprotoPack sampleWords (List.replicate 24 0)
    (List.replicate 40 7) ⟨4, rfl⟩ (by decide +kernel)
  exact ⟨buffer, done, same (by decide)⟩

end Pskynet.Sproto
