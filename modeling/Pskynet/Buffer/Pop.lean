import Pskynet.Buffer.Chunks

set_option autoImplicit false

namespace Pskynet.Buffer

open CInt

variable {state : State} {chunks : Nat → List (List UInt8)}

def Stuck : Int → Nat → List (List UInt8) → Prop
  | _, _, [] => False
  | keep, sz, chunk :: rest =>
      chunk.length < sz ∧ (keep < 0 ∨ Stuck (keep - chunk.length) (sz - chunk.length) rest)

instance decidableStuck : ∀ keep sz chunks, Decidable (Stuck keep sz chunks)
  | _, _, [] => .isFalse id
  | keep, sz, chunk :: rest =>
      have := decidableStuck (keep - chunk.length) (sz - chunk.length) rest
      inferInstanceAs (Decidable (chunk.length < sz ∧
        (keep < 0 ∨ Stuck (keep - chunk.length) (sz - chunk.length) rest)))

theorem stuck_iff (keep : Int) (sz : Nat) (chunks : List (List UInt8)) :
    Stuck keep sz chunks ↔ ∃ before chunk after, chunks = before ++ chunk :: after ∧
      keep < before.flatten.length ∧ before.flatten.length + chunk.length < sz := by
  induction chunks generalizing keep sz with
  | nil => simp [Stuck]
  | cons first rest ih =>
    simp only [Stuck, ih]
    constructor
    · rintro ⟨less, negative | ⟨before, chunk, after, rfl, low, high⟩⟩
      · exact ⟨[], first, rest, rfl, by simpa using negative, by simpa using less⟩
      · refine ⟨first :: before, chunk, after, rfl, ?_, ?_⟩
        · rw [List.flatten_cons, List.length_append]
          omega
        · rw [List.flatten_cons, List.length_append]
          omega
    · rintro ⟨before, chunk, after, parts, low, high⟩
      cases before with
      | nil =>
        obtain ⟨rfl, rfl⟩ := List.cons.inj parts
        simp only [List.flatten_nil, List.length_nil] at low high
        exact ⟨by omega, .inl (by omega)⟩
      | cons second before =>
        obtain ⟨rfl, rfl⟩ := List.cons.inj parts
        rw [List.flatten_cons, List.length_append] at low high
        exact ⟨by omega, .inr ⟨before, chunk, after, rfl, by omega, by omega⟩⟩

theorem not_stuck_all (sz : Nat) (chunks : List (List UInt8)) : ¬Stuck sz sz chunks := by
  rw [stuck_iff]
  rintro ⟨before, chunk, after, -, low, high⟩
  omega

-- What a pop of `sz` bytes leaves: the other buffers and all sizes are as before.
structure Popped (state next : State) (chunks : Nat → List (List UInt8)) (b sz : Nat) : Prop where
  left : ∃ rest, Chunked next (Function.update chunks b rest) ∧
    rest.flatten = (chunks b).flatten.drop sz
  sizes : ∀ c, (next.buffer c).size = (state.buffer c).size

theorem setBuffer_twice (state : State) (b : Nat) (sb other : SocketBuffer) :
    (state.setBuffer b sb).setBuffer b other = state.setBuffer b other := by
  simp only [State.setBuffer, Function.update_idem]

theorem returnFreeNode_moved (state : State) (b : Nat) (offset : Int) :
    returnFreeNode (state.setBuffer b { state.buffer b with offset }) b =
      returnFreeNode state b := by
  simp only [returnFreeNode, setBuffer_buffer, Function.update_self]
  cases (state.buffer b).head with
  | none => rfl
  | some n =>
    simp only [Option.bind_eq_bind, Option.bind_some, setBuffer_twice]
    rfl

theorem Chunked.last (chunked : Chunked state chunks) {b : Nat} {chunk : List UInt8}
    {rest : List (List UInt8)} (parts : chunks b = chunk :: rest) (sz : Nat)
    (within : sz ≤ chunk.length) :
    ∃ next, (if (chunk.length : Int) = sz then
          returnFreeNode (state.setBuffer b
            { state.buffer b with offset := (state.buffer b).offset + sz }) b
        else some (state.setBuffer b
          { state.buffer b with offset := (state.buffer b).offset + sz })) = some next ∧
      Popped state next chunks b sz := by
  by_cases whole : chunk.length = sz
  · obtain ⟨next, taken, kept, -, sizes⟩ := chunked.return parts
    refine ⟨next, ?_, ⟨rest, kept, ?_⟩, sizes⟩
    · rw [if_pos (by omega), returnFreeNode_moved, taken]
    · rw [parts, List.flatten_cons, ← whole, List.drop_left]
  · refine ⟨_, if_neg (by omega), ⟨_, chunked.advance parts sz (by omega), ?_⟩, ?_⟩
    · rw [parts, List.flatten_cons, List.flatten_cons, List.drop_append_of_le_length within]
    · intro c
      by_cases same : c = b
      · simp [same]
      · simp [same]

theorem flatten_length_cons (chunk : List UInt8) (rest : List (List UInt8)) :
    (chunk :: rest).flatten.length = chunk.length + rest.flatten.length := by
  rw [List.flatten_cons, List.length_append]

theorem Popped.trans {next final : State} {b : Nat} {chunk : List UInt8}
    {rest : List (List UInt8)} {sz : Nat} (parts : chunks b = chunk :: rest)
    (more : chunk.length ≤ sz) (sizes : ∀ c, (next.buffer c).size = (state.buffer c).size)
    (popped : Popped next final (Function.update chunks b rest) b (sz - chunk.length)) :
    Popped state final chunks b sz := by
  obtain ⟨⟨left, kept, same⟩, later⟩ := popped
  refine ⟨⟨left, ?_, ?_⟩, fun c => (later c).trans (sizes c)⟩
  · rwa [Function.update_idem] at kept
  · rw [same, Function.update_self, parts, List.flatten_cons, List.drop_append,
      List.drop_eq_nil_of_le more, List.nil_append]

theorem popLoop_some (fuel : Nat) (chunked : Chunked state chunks) (b current sz skip : Nat)
    (out : List UInt8) (head : (state.buffer b).head = some current) (positive : 0 < sz)
    (enough : sz ≤ (chunks b).flatten.length) (rounds : (chunks b).length ≤ fuel)
    (free : ¬Stuck (sz - skip) sz (chunks b)) :
    ∃ next, popLoop b skip fuel state current sz out =
        some (next, out ++ (chunks b).flatten.take (sz - skip)) ∧
      Popped state next chunks b sz := by
  induction fuel generalizing state chunks current sz out with
  | zero =>
    rw [List.eq_nil_of_length_eq_zero (Nat.le_zero.mp rounds)] at enough
    exact absurd enough (by simpa using positive.ne')
  | succ fuel ih =>
    cases parts : chunks b with
    | nil =>
      rw [parts] at enough
      exact absurd enough (by simpa using positive.ne')
    | cons chunk rest =>
      obtain ⟨n, front⟩ := chunked.front parts
      obtain rfl : n = current := Option.some.inj (front.head.symm.trans head)
      rw [parts] at enough rounds free
      rw [flatten_length_cons] at enough
      simp only [Stuck, not_and, not_or] at free
      simp only [popLoop, front.bytes]
      by_cases last : sz ≤ chunk.length
      · obtain ⟨next, taken, popped⟩ := chunked.last parts sz last
        have added : (if (sz : Int) > skip then
              slice (state.node n).msg (state.buffer b).offset (sz - skip) else some []) =
            some (chunk.take (sz - skip)) := by
          by_cases more : skip < sz
          · rw [if_pos (by omega), ← Nat.cast_sub more.le]
            exact front.reads (sz - skip) (by omega)
          · rw [if_neg (by omega), Nat.sub_eq_zero_of_le (by omega), List.take_zero]
        refine ⟨next, ?_, popped⟩
        rw [if_pos (by omega), added, List.flatten_cons,
          List.take_append_of_le_length (by omega)]
        simp only [Option.bind_eq_bind, Option.bind_some, taken]
      · obtain ⟨next, taken, kept, -, sizes⟩ := chunked.return parts
        obtain ⟨keeps, free⟩ := free (by omega)
        have added : slice (state.node n).msg (state.buffer b).offset
              (if (sz : Int) - skip < chunk.length then (sz : Int) - skip else chunk.length) =
            some (chunk.take (sz - skip)) := by
          by_cases less : sz - skip < chunk.length
          · rw [if_pos (by omega), ← Nat.cast_sub (by omega)]
            exact front.reads (sz - skip) less.le
          · rw [if_neg (by omega), List.take_of_length_le (by omega)]
            have whole := front.reads chunk.length le_rfl
            rwa [List.take_length] at whole
        have now : (Function.update chunks b rest) b = rest := Function.update_self ..
        obtain ⟨second, more, rfl⟩ : ∃ second more, rest = second :: more := by
          cases rest with
          | nil => simp at enough; omega
          | cons second more => exact ⟨second, more, rfl⟩
        obtain ⟨m, later⟩ := kept.front now
        obtain ⟨final, ran, popped⟩ := ih kept m (sz - chunk.length)
          (out ++ chunk.take (sz - skip)) later.head (by omega) (by rw [now]; omega)
          (by rw [now]; exact Nat.le_of_succ_le_succ rounds) (by
            rw [now, Nat.cast_sub (by omega)]
            rwa [show (sz : Int) - chunk.length - skip = sz - skip - chunk.length by omega])
        refine ⟨final, ?_, popped.trans parts (by omega) sizes⟩
        rw [if_neg (by omega), added]
        simp only [Option.bind_eq_bind, Option.bind_some, taken, later.head]
        rw [if_neg (by omega), ← Nat.cast_sub (by omega), ran, now, List.append_assoc,
          Nat.sub_right_comm sz chunk.length skip, ← List.take_append, ← List.flatten_cons]

theorem popLoop_stuck (fuel : Nat) (chunked : Chunked state chunks) (b current sz skip : Nat)
    (out : List UInt8) (head : (state.buffer b).head = some current)
    (stuck : Stuck (sz - skip) sz (chunks b)) :
    popLoop b skip fuel state current sz out = none := by
  induction fuel generalizing state chunks current sz out with
  | zero => rfl
  | succ fuel ih =>
    cases parts : chunks b with
    | nil =>
      rw [parts] at stuck
      exact stuck.elim
    | cons chunk rest =>
      obtain ⟨n, front⟩ := chunked.front parts
      obtain rfl : n = current := Option.some.inj (front.head.symm.trans head)
      rw [parts] at stuck
      obtain ⟨less, stuck⟩ := stuck
      simp only [popLoop, front.bytes]
      rw [if_neg (by omega)]
      by_cases negative : (sz : Int) - skip < 0
      · rw [if_pos (by omega), slice_negative _ _ _ negative]
        rfl
      · obtain ⟨next, taken, kept, -, -⟩ := chunked.return parts
        have now : (Function.update chunks b rest) b = rest := Function.update_self ..
        have stuck := stuck.resolve_left negative
        cases slice (state.node n).msg (state.buffer b).offset
            (if (sz : Int) - skip < chunk.length then (sz : Int) - skip else chunk.length) with
        | none => rfl
        | some added =>
          simp only [Option.bind_eq_bind, Option.bind_some, taken]
          rw [if_neg (by omega)]
          cases following : (next.buffer b).head with
          | none => rfl
          | some m =>
            rw [Option.bind_some, ← Nat.cast_sub less.le]
            refine ih kept m (sz - chunk.length) (out ++ added) following ?_
            rw [now, Nat.cast_sub less.le]
            rwa [show (sz : Int) - chunk.length - skip = sz - skip - chunk.length by omega]

theorem popLstring_some (chunked : Chunked state chunks) (b sz skip : Nat) (positive : 0 < sz)
    (less : skip ≤ sz) (enough : sz ≤ (chunks b).flatten.length)
    (free : ¬Stuck (sz - skip) sz (chunks b)) :
    ∃ next, popLstring state b sz skip =
        some (next, (chunks b).flatten.take (sz - skip)) ∧ Popped state next chunks b sz := by
  cases parts : chunks b with
  | nil =>
    rw [parts] at enough
    exact absurd enough (by simpa using positive.ne')
  | cons chunk rest =>
    obtain ⟨n, front⟩ := chunked.front parts
    simp only [popLstring, front.head, Option.bind_eq_bind, Option.bind_some, front.bytes]
    by_cases more : chunk.length < sz
    · rw [if_neg (by omega), if_neg (by omega), ← parts]
      have rounds := chunked.length_le b
      exact popLoop_some _ chunked b n sz skip [] front.head positive enough (by omega) free
    · obtain ⟨next, taken, popped⟩ := chunked.last parts sz (by omega)
      have added := front.reads (sz - skip) (by omega)
      rw [Nat.cast_sub less] at added
      refine ⟨next, ?_, popped⟩
      rw [List.flatten_cons, List.take_append_of_le_length (by omega), added]
      simp only [Option.bind_some]
      by_cases whole : chunk.length = sz
      · rw [if_pos (by omega), returnFreeNode_moved] at taken
        rw [if_neg (by omega), if_pos (by omega), taken]
        rfl
      · rw [if_neg (by omega)] at taken
        rw [if_pos (by omega), ← Option.some.inj taken, ← front.head]

theorem popLstring_stuck (chunked : Chunked state chunks) (b sz skip : Nat)
    (stuck : Stuck (sz - skip) sz (chunks b)) : popLstring state b sz skip = none := by
  cases parts : chunks b with
  | nil =>
    rw [parts] at stuck
    exact stuck.elim
  | cons chunk rest =>
    obtain ⟨n, front⟩ := chunked.front parts
    have less : chunk.length < sz := by
      rw [parts] at stuck
      exact stuck.1
    simp only [popLstring, front.head, Option.bind_eq_bind, Option.bind_some, front.bytes]
    rw [if_neg (by omega), if_neg (by omega)]
    exact popLoop_stuck _ chunked b n sz skip [] front.head stuck

theorem clearLoop_some (fuel : Nat) (chunked : Chunked state chunks) (b : Nat)
    (rounds : (chunks b).length < fuel) :
    ∃ next, clearLoop b fuel state = some next ∧ Chunked next (Function.update chunks b []) ∧
      ∀ c, (next.buffer c).size = (state.buffer c).size := by
  induction fuel generalizing state chunks with
  | zero => exact absurd rounds (Nat.not_lt_zero _)
  | succ fuel ih =>
    cases parts : chunks b with
    | nil =>
      refine ⟨state, ?_, ?_, fun _ => rfl⟩
      · simp only [clearLoop, chunked.empty parts]
      · rwa [← parts, Function.update_eq_self]
    | cons chunk rest =>
      obtain ⟨n, front⟩ := chunked.front parts
      obtain ⟨next, taken, kept, -, sizes⟩ := chunked.return parts
      rw [parts, List.length_cons] at rounds
      obtain ⟨final, ran, cleared, later⟩ := ih kept (by
        rw [Function.update_self]
        omega)
      refine ⟨final, ?_, ?_, fun c => (later c).trans (sizes c)⟩
      · simp only [clearLoop, front.head, taken, Option.bind_eq_bind, Option.bind_some, ran]
      · rwa [Function.update_idem] at cleared

theorem readLoop_some (fuel : Nat) (chunked : Chunked state chunks) (b : Nat) (out : List UInt8)
    (rounds : (chunks b).length < fuel) :
    ∃ next, readLoop b fuel state out = some (next, out ++ (chunks b).flatten) ∧
      Chunked next (Function.update chunks b []) ∧
      ∀ c, (next.buffer c).size = (state.buffer c).size := by
  induction fuel generalizing state chunks out with
  | zero => exact absurd rounds (Nat.not_lt_zero _)
  | succ fuel ih =>
    cases parts : chunks b with
    | nil =>
      refine ⟨state, ?_, ?_, fun _ => rfl⟩
      · simp only [readLoop, chunked.empty parts, List.flatten_nil, List.append_nil]
      · rwa [← parts, Function.update_eq_self]
    | cons chunk rest =>
      obtain ⟨n, front⟩ := chunked.front parts
      obtain ⟨next, taken, kept, -, sizes⟩ := chunked.return parts
      have added := front.reads chunk.length le_rfl
      rw [List.take_length] at added
      rw [parts, List.length_cons] at rounds
      obtain ⟨final, ran, cleared, later⟩ := ih kept (out ++ chunk) (by
        rw [Function.update_self]
        omega)
      refine ⟨final, ?_, ?_, fun c => (later c).trans (sizes c)⟩
      · simp only [readLoop, front.head, front.bytes, added, taken, Option.bind_eq_bind,
          Option.bind_some, ran, Function.update_self, List.flatten_cons, List.append_assoc]
      · rwa [Function.update_idem] at cleared

end Pskynet.Buffer
