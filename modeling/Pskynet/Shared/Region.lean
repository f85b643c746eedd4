import Mathlib.Tactic

set_option autoImplicit false

-- The bytes from a pointer on, and the end of those that were written. The memory goes on
-- behind every buffer in it, so that a write may leave its buffer.
structure Region where
  byte : Nat → UInt8
  reach : Nat

namespace Region

def write (region : Region) (start : Nat) (v : UInt8) : Region :=
  { byte := Function.update region.byte start v
    reach := max region.reach (start + 1) }

def writes : Region → Nat → List UInt8 → Region
  | region, _, [] => region
  | region, start, v :: rest => writes (region.write start v) (start + 1) rest

def read (region : Region) (start count : Nat) : List UInt8 :=
  (List.range count).map fun i => region.byte (start + i)

variable (region : Region)

@[simp] theorem length_read (start count : Nat) : (region.read start count).length = count := by
  simp [read]

theorem byte_writes (start : Nat) (bytes : List UInt8) (place : Nat) :
    (region.writes start bytes).byte place =
      if start ≤ place ∧ place < start + bytes.length then bytes.getD (place - start) 0
      else region.byte place := by
  induction bytes generalizing region start with
  | nil =>
    rw [writes, if_neg]
    simp
  | cons v rest ih =>
    rw [writes, ih, List.length_cons]
    by_cases here : place = start
    · subst here
      rw [if_neg (by omega), if_pos (by omega), Nat.sub_self]
      simp [write]
    · have other : (region.write start v).byte place = region.byte place :=
        Function.update_of_ne here _ _
      rw [other]
      split_ifs with inside whole whole
      · obtain ⟨k, next⟩ : ∃ k, place - start = k + 1 := ⟨place - start - 1, by omega⟩
        have before : place - (start + 1) = k := by omega
        rw [next, before, List.getD_cons_succ]
      · omega
      · omega
      · rfl

theorem reach_writes (start : Nat) (bytes : List UInt8) :
    (region.writes start bytes).reach =
      if bytes = [] then region.reach else max region.reach (start + bytes.length) := by
  induction bytes generalizing region start with
  | nil => rfl
  | cons v rest ih =>
    rw [writes, ih, if_neg (List.cons_ne_nil v rest), List.length_cons, write]
    split_ifs with last
    · simp [last]
    · simp only
      omega

theorem writes_append (start : Nat) (first second : List UInt8) :
    (region.writes start first).writes (start + first.length) second =
      region.writes start (first ++ second) := by
  induction first generalizing region start with
  | nil => rfl
  | cons v rest ih =>
    rw [List.cons_append, writes, writes, ← ih, List.length_cons]
    congr 1
    omega

theorem read_congr (other : Region) (start count : Nat)
    (same : ∀ place, start ≤ place → place < start + count → other.byte place = region.byte place) :
    other.read start count = region.read start count := by
  apply List.map_congr_left
  intro i inside
  exact same _ (Nat.le_add_right _ _) (Nat.add_lt_add_left (List.mem_range.mp inside) _)

theorem read_writes (start : Nat) (bytes : List UInt8) :
    (region.writes start bytes).read start bytes.length = bytes := by
  apply List.ext_getElem
  · simp
  · intro i inside bound
    simp [read, byte_writes, bound]

theorem read_writes_of_disjoint (start : Nat) (bytes : List UInt8) (from_ count : Nat)
    (apart : from_ + count ≤ start ∨ start + bytes.length ≤ from_) :
    (region.writes start bytes).read from_ count = region.read from_ count := by
  apply read_congr
  intro place first last
  rw [byte_writes, if_neg (by omega)]

theorem read_add (start count more : Nat) :
    region.read start (count + more) = region.read start count ++ region.read (start + count) more := by
  simp only [read, List.range_add, List.map_append, List.map_map]
  congr 1
  apply List.map_congr_left
  intro i _
  simp [Nat.add_assoc]

theorem read_flatMap_iff {α : Type} (width : Nat) (bytes : α → List UInt8)
    (length : ∀ x, (bytes x).length = width) (start : Nat) (elements : List α) :
    region.read start (elements.length * width) = elements.flatMap bytes ↔
      ∀ (i : Nat) (inside : i < elements.length),
        region.read (start + i * width) width = bytes (elements.get ⟨i, inside⟩) := by
  induction elements generalizing start with
  | nil => simp [read]
  | cons x rest ih =>
    have split : (x :: rest).length * width = width + rest.length * width := by
      rw [List.length_cons]
      ring
    have whole : region.read start ((x :: rest).length * width) =
        region.read start width ++ region.read (start + width) (rest.length * width) := by
      rw [split, read_add]
    have next (i : Nat) : start + (i + 1) * width = start + width + i * width := by ring
    rw [whole, List.flatMap_cons]
    constructor
    · intro parts i inside
      obtain ⟨first, later⟩ := List.append_inj parts (by simp [length])
      cases i with
      | zero => simpa using first
      | succ i =>
        rw [next]
        exact (ih (start + width)).mp later i (Nat.lt_of_succ_lt_succ inside)
    · intro each
      have first := each 0 (Nat.succ_pos _)
      rw [Nat.zero_mul, Nat.add_zero] at first
      have later := (ih (start + width)).mpr (by
        intro i inside
        rw [← next]
        exact each (i + 1) (Nat.succ_lt_succ inside))
      rw [first, later]
      rfl

end Region
