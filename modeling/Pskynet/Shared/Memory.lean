import Mathlib.Data.List.Basic
import Mathlib.Tactic

set_option autoImplicit false

namespace Memory

-- What `malloc` leaves in a block is not known; zeros stand for it.
def malloc (size : Nat) : List UInt8 := List.replicate size 0

-- `memcpy(block + at, bytes, length of bytes)`
def memcpy (block : List UInt8) (start : Nat) (bytes : List UInt8) : List UInt8 :=
  block.take start ++ bytes ++ block.drop (start + bytes.length)

@[simp] theorem length_malloc (size : Nat) : (malloc size).length = size := by
  simp [malloc]

theorem length_memcpy (block bytes : List UInt8) (start : Nat)
    (fits : start + bytes.length ≤ block.length) :
    (memcpy block start bytes).length = block.length := by
  simp only [memcpy, List.length_append, List.length_take, List.length_drop]
  omega

theorem take_memcpy (block bytes : List UInt8) (start : Nat)
    (fits : start + bytes.length ≤ block.length) :
    (memcpy block start bytes).take (start + bytes.length) = block.take start ++ bytes := by
  have length : (block.take start ++ bytes).length = start + bytes.length := by
    rw [List.length_append, List.length_take]
    omega
  rw [memcpy, ← length, List.take_left]

theorem memcpy_memcpy (block first second : List UInt8) (start : Nat)
    (inside : start ≤ block.length) :
    memcpy (memcpy block start first) (start + first.length) second =
      memcpy block start (first ++ second) := by
  have front : (block.take start ++ first).length = start + first.length := by
    rw [List.length_append, List.length_take, Nat.min_eq_left inside]
  rw [memcpy, memcpy, memcpy, ← front, List.take_left, List.append_assoc (block.take start) first,
    List.append_assoc, List.drop_append, List.drop_eq_nil_of_le (by omega), List.nil_append, front,
    Nat.add_sub_cancel_left, List.drop_drop, List.length_append, Nat.add_assoc]
  simp only [List.append_assoc]

theorem memcpy_full (block bytes : List UInt8) (start : Nat)
    (fits : start + bytes.length = block.length) :
    memcpy block start bytes = block.take start ++ bytes := by
  have whole := take_memcpy block bytes start fits.le
  rwa [List.take_of_length_le] at whole
  rw [length_memcpy block bytes start fits.le]
  omega

end Memory
