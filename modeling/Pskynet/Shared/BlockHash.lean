import Mathlib.Tactic

set_option autoImplicit false

namespace BlockHash

variable {σ α : Type}

-- The state after `n` blocks of `size`
def absorb (compress : σ → List α → σ) (size : Nat) : Nat → σ → List α → σ
  | 0, s, _ => s
  | n + 1, s, data => absorb compress size n (compress s (data.take size)) (data.drop size)

variable (compress : σ → List α → σ) (size : Nat)

theorem absorb_add (n k : Nat) (s : σ) (data : List α) :
    absorb compress size (n + k) s data =
      absorb compress size k (absorb compress size n s data) (data.drop (size * n)) := by
  induction n generalizing s data with
  | zero => rw [Nat.zero_add, Nat.mul_zero, List.drop_zero, absorb]
  | succ n ih => rw [Nat.succ_add, absorb, ih, absorb, List.drop_drop, Nat.mul_succ, Nat.add_comm size]

theorem absorb_append (n : Nat) (s : σ) (data more : List α) (enough : size * n ≤ data.length) :
    absorb compress size n s (data ++ more) = absorb compress size n s data := by
  induction n generalizing s data with
  | zero => rfl
  | succ n ih =>
    rw [Nat.mul_succ] at enough
    have within : size ≤ data.length := by omega
    rw [absorb, absorb, List.take_append_of_le_length within, List.drop_append_of_le_length within]
    exact ih _ _ (by rw [List.length_drop]; omega)

structure Streams (start : σ) (message : List α) (state : σ) (buffer : List α) : Prop where
  state : state = absorb compress size (message.length / size) start message
  rest : buffer.take (message.length % size) = message.drop (size * (message.length / size))

variable {compress size} {start state : σ} {message buffer : List α}

theorem Streams.empty (start : σ) (buffer : List α) : Streams compress size start [] start buffer where
  state := by rw [List.length_nil, Nat.zero_div, absorb]
  rest := by rw [List.length_nil, Nat.zero_mod, List.take_zero, List.drop_nil]

theorem Streams.fill (streams : Streams compress size start message state buffer) (data : List α)
    (short : message.length % size + data.length < size) {after : List α}
    (filled : after.take (message.length % size + data.length) =
      buffer.take (message.length % size) ++ data) :
    Streams compress size start (message ++ data) state after := by
  have parts := Nat.div_add_mod message.length size
  have total : message.length + data.length =
      size * (message.length / size) + (message.length % size + data.length) := by omega
  have blocks : (message.length + data.length) / size = message.length / size := by
    rw [total, Nat.mul_add_div (by omega), Nat.div_eq_of_lt short, Nat.add_zero]
  have left : (message.length + data.length) % size = message.length % size + data.length := by
    rw [total, Nat.mul_add_mod, Nat.mod_eq_of_lt short]
  constructor
  · rw [List.length_append, blocks, absorb_append _ _ _ _ _ _ (Nat.mul_div_le _ _)]
    exact streams.state
  · rw [List.length_append, blocks, left, filled, streams.rest,
      List.drop_append_of_le_length (Nat.mul_div_le _ _)]

theorem Streams.close (streams : Streams compress size start message state buffer) (data : List α)
    {i : Nat} (closes : message.length % size + i = size) (enough : i ≤ data.length)
    (positive : 0 < size) {after : List α}
    (filled : after.take ((data.length - i) % size) =
      data.drop (i + size * ((data.length - i) / size))) :
    Streams compress size start (message ++ data)
      (absorb compress size ((data.length - i) / size)
        (compress state (buffer.take (message.length % size) ++ data.take i)) (data.drop i)) after := by
  have parts := Nat.div_add_mod message.length size
  have total : message.length + data.length =
      size * (message.length / size + 1) + (data.length - i) := by
    rw [Nat.mul_succ]
    omega
  have blocks : (message.length + data.length) / size =
      message.length / size + (1 + (data.length - i) / size) := by
    rw [total, Nat.mul_add_div positive, Nat.add_assoc]
  have left : (message.length + data.length) % size = (data.length - i) % size := by
    rw [total, Nat.mul_add_mod]
  have pending : (message ++ data).drop (size * (message.length / size)) =
      buffer.take (message.length % size) ++ data := by
    rw [List.drop_append_of_le_length (Nat.mul_div_le _ _), streams.rest]
  have length : (buffer.take (message.length % size)).length = message.length % size := by
    rw [streams.rest, List.length_drop]
    omega
  constructor
  · rw [List.length_append, blocks, absorb_add, absorb_append _ _ _ _ _ _ (Nat.mul_div_le _ _),
      ← streams.state, pending, Nat.add_comm 1, absorb]
    have first : (buffer.take (message.length % size) ++ data).take size =
        buffer.take (message.length % size) ++ data.take i := by
      rw [List.take_append, length, List.take_of_length_le (by omega)]
      congr 2
      omega
    have later : (buffer.take (message.length % size) ++ data).drop size = data.drop i := by
      rw [List.drop_append, length, List.drop_eq_nil_of_le (by omega), List.nil_append]
      congr 1
      omega
    rw [first, later]
  · have behind (k : Nat) : (message ++ data).drop (size * (message.length / size) + k) =
        (buffer.take (message.length % size) ++ data).drop k := by
      rw [← pending, List.drop_drop]
    have past : (buffer.take (message.length % size)).drop
        (size + size * ((data.length - i) / size)) = [] :=
      List.drop_eq_nil_of_le (by omega)
    rw [List.length_append, blocks, left, filled, Nat.mul_add, behind, Nat.mul_add, Nat.mul_one,
      List.drop_append, length, past, List.nil_append]
    congr 1
    omega

end BlockHash
