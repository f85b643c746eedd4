import Mathlib.Logic.Function.Basic
import Mathlib.Tactic

set_option autoImplicit false

namespace CircularBuffer

variable {A : Type}

def wrap (cap i : Nat) : Nat := if i < cap then i else i - cap

theorem wrap_eq_mod (cap i : Nat) (bound : i < 2 * cap) : i % cap = wrap cap i := by
  unfold wrap
  split_ifs with inside
  · exact Nat.mod_eq_of_lt inside
  · rw [Nat.mod_eq_sub_mod (by omega), Nat.mod_eq_of_lt (by omega)]

theorem wrap_lt (cap i : Nat) (bound : i < 2 * cap) : wrap cap i < cap := by
  unfold wrap
  split_ifs <;> omega

end CircularBuffer

-- A circular buffer. Between `head` and `tail` stand the elements in their order; the
-- other cells hold what was left there.
structure CircularBuffer (A : Type) where
  cap : Nat
  head : Nat
  tail : Nat
  data : Nat → A
  head_lt : head < cap
  tail_lt : tail < cap

namespace CircularBuffer

variable {A : Type}

def count (r : CircularBuffer A) : Nat := wrap r.cap (r.tail + r.cap - r.head)

def window (r : CircularBuffer A) (k : Nat) : List A :=
  (List.range k).map fun i => r.data (wrap r.cap (r.head + i))

def contents (r : CircularBuffer A) : List A := r.window r.count

def new (cap : Nat) (default : A) (pos : 0 < cap) : CircularBuffer A where
  cap := cap
  head := 0
  tail := 0
  data := fun _ => default
  head_lt := pos
  tail_lt := pos

def put (r : CircularBuffer A) (x : A) : CircularBuffer A where
  cap := r.cap
  head := r.head
  tail := wrap r.cap (r.tail + 1)
  data := Function.update r.data r.tail x
  head_lt := r.head_lt
  tail_lt := wrap_lt _ _ (by have := r.tail_lt; omega)

def advance (r : CircularBuffer A) : CircularBuffer A where
  cap := r.cap
  head := wrap r.cap (r.head + 1)
  tail := r.tail
  data := r.data
  head_lt := wrap_lt _ _ (by have := r.head_lt; omega)
  tail_lt := r.tail_lt

def pop (r : CircularBuffer A) : Option (A × CircularBuffer A) :=
  if r.head = r.tail then none else some (r.data r.head, r.advance)

-- The first `k` elements from `head` on, moved to the start of a larger buffer.
def regrow (r : CircularBuffer A) (k cap : Nat) (room : k < cap) : CircularBuffer A where
  cap := cap
  head := 0
  tail := k
  data := fun i => r.data (wrap r.cap (r.head + i))
  head_lt := by omega
  tail_lt := room

theorem count_lt (r : CircularBuffer A) : r.count < r.cap := by
  have head := r.head_lt
  have tail := r.tail_lt
  exact wrap_lt _ _ (by omega)

theorem count_zero_iff (r : CircularBuffer A) : r.count = 0 ↔ r.head = r.tail := by
  have head := r.head_lt
  have tail := r.tail_lt
  unfold count wrap
  split_ifs <;> omega

@[simp] theorem length_window (r : CircularBuffer A) (k : Nat) : (r.window k).length = k := by
  simp [window]

@[simp] theorem length_contents (r : CircularBuffer A) : r.contents.length = r.count := by
  simp [contents]

@[simp] theorem contents_new (cap : Nat) (default : A) (pos : 0 < cap) :
    (new cap default pos).contents = [] := by
  simp [contents, window, count, new, wrap]

theorem window_put (r : CircularBuffer A) (x : A) :
    (r.put x).window (r.count + 1) = r.contents ++ [x] := by
  have head := r.head_lt
  have tail := r.tail_lt
  unfold contents window
  rw [List.range_succ, List.map_append]
  congr 1
  · apply List.map_congr_left
    intro i inside
    have bound := List.mem_range.mp inside
    have other : wrap r.cap (r.head + i) ≠ r.tail := by
      unfold count wrap at *
      split_ifs at * <;> omega
    simp [put, other]
  · have last : wrap r.cap (r.head + r.count) = r.tail := by
      unfold count wrap
      split_ifs <;> omega
    simp [put, last]

theorem count_put (r : CircularBuffer A) (x : A) (room : r.count + 1 < r.cap) :
    (r.put x).count = r.count + 1 := by
  have head := r.head_lt
  have tail := r.tail_lt
  simp only [put, count, wrap] at *
  split_ifs at * <;> omega

theorem contents_put (r : CircularBuffer A) (x : A) (room : r.count + 1 < r.cap) :
    (r.put x).contents = r.contents ++ [x] := by
  rw [contents, count_put r x room, window_put]

theorem put_full_iff (r : CircularBuffer A) (x : A) :
    (r.put x).head = (r.put x).tail ↔ r.count + 1 = r.cap := by
  have head := r.head_lt
  have tail := r.tail_lt
  simp only [put, count, wrap]
  split_ifs <;> omega

theorem contents_regrow (r : CircularBuffer A) (k cap : Nat) (room : k < cap) :
    (r.regrow k cap room).contents = r.window k := by
  have size : (r.regrow k cap room).count = k := by
    have bound : ¬k + cap - 0 < cap := by omega
    simp only [regrow, count, wrap, bound, if_false]
    omega
  unfold contents
  rw [size]
  unfold window
  apply List.map_congr_left
  intro i inside
  have bound := List.mem_range.mp inside
  have flat : i < cap := by omega
  simp [regrow, wrap, flat]

theorem contents_advance (r : CircularBuffer A) (nonempty : r.head ≠ r.tail) :
    r.contents = r.data r.head :: r.advance.contents := by
  have head := r.head_lt
  have tail := r.tail_lt
  have size : r.count = r.advance.count + 1 := by
    simp only [advance, count, wrap]
    split_ifs <;> omega
  unfold contents window
  rw [size, List.range_succ_eq_map, List.map_cons, List.map_map]
  congr 1
  · simp [wrap, head]
  · apply List.map_congr_left
    intro i inside
    have bound := List.mem_range.mp inside
    have small := count_lt r
    have shifted : wrap r.cap (r.head + (i + 1)) = wrap r.cap (wrap r.cap (r.head + 1) + i) := by
      unfold wrap
      split_ifs <;> omega
    simp [advance, shifted]

theorem pop_eq_none_iff (r : CircularBuffer A) : r.pop = none ↔ r.contents = [] := by
  rw [← List.length_eq_zero_iff, length_contents, count_zero_iff]
  simp [pop]

theorem contents_of_pop (r rest : CircularBuffer A) (x : A) (popped : r.pop = some (x, rest)) :
    r.contents = x :: rest.contents := by
  unfold pop at popped
  split_ifs at popped with same
  simp only [Option.some.injEq, Prod.mk.injEq] at popped
  rw [contents_advance r same, popped.1, popped.2]

-- `while ((x = pop(r)) != NULL) body(x)`; a buffer of `count` elements takes that many turns.
def popWhile {S : Type} (body : S → A → S) : Nat → CircularBuffer A → S → S × CircularBuffer A
  | 0, r, s => (s, r)
  | turns + 1, r, s =>
      match r.pop with
      | none => (s, r)
      | some (x, rest) => popWhile body turns rest (body s x)

theorem popWhile_eq {S : Type} (body : S → A → S) (turns : Nat) (r : CircularBuffer A) (s : S)
    (enough : r.count ≤ turns) :
    (popWhile body turns r s).1 = r.contents.foldl body s ∧
      (popWhile body turns r s).2.contents = [] := by
  induction turns generalizing r s with
  | zero =>
    have empty : r.contents = [] := by
      rw [← List.length_eq_zero_iff, length_contents]
      omega
    simp [popWhile, empty]
  | succ turns ih =>
    unfold popWhile
    cases popped : r.pop with
    | none => simp [(pop_eq_none_iff r).mp popped]
    | some pair =>
      obtain ⟨x, rest⟩ := pair
      have front := contents_of_pop r rest x popped
      have size : r.count = rest.count + 1 := by
        rw [← length_contents, front, List.length_cons, length_contents]
      rw [front, List.foldl_cons]
      exact ih rest (body s x) (by omega)

-- The same loop without a bound on the turns.
def drain {S : Type} (body : S → A → S) (r : CircularBuffer A) (s : S) : S × CircularBuffer A :=
  popWhile body r.count r s

theorem drain_fst {S : Type} (body : S → A → S) (r : CircularBuffer A) (s : S) :
    (drain body r s).1 = r.contents.foldl body s :=
  (popWhile_eq body r.count r s (le_refl _)).1

theorem contents_drain {S : Type} (body : S → A → S) (r : CircularBuffer A) (s : S) :
    (drain body r s).2.contents = [] :=
  (popWhile_eq body r.count r s (le_refl _)).2

end CircularBuffer
