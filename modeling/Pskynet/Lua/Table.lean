import Mathlib.Tactic

set_option autoImplicit false

namespace Pskynet.Lua

-- A table without a metatable, as far as its integer keys go: the array part, and the integer keys
-- of the hash part. `nil` is none.
structure Table (α : Type) where
  array : List (Option α)
  node : List (Nat × α)
  deriving DecidableEq, Repr

namespace Table

variable {α : Type} (t : Table α)

def maxKey : List (Nat × α) → Nat
  | [] => 0
  | (key, _) :: node => max key (maxKey node)

def getint (key : Nat) : Option α :=
  if 1 ≤ key ∧ key ≤ t.array.length then (t.array[key - 1]?).join else t.node.lookup key

def last : Nat := max t.array.length (maxKey t.node)

-- The binary search of `luaH_getn` and `unbound_search`, between a key with a value (or 0) and a
-- key without one
def binarySearch (i j : Nat) : Nat :=
  if 1 < j - i then
    if t.getint ((i + j) / 2) = none then binarySearch i ((i + j) / 2)
    else binarySearch ((i + j) / 2) j
  else i
termination_by j - i

-- The values that `ipairs` goes over, and no more than there is fuel
def ipairsFrom : Nat → Nat → List α
  | 0, _ => []
  | fuel + 1, i =>
    match t.getint i with
    | none => []
    | some v => v :: ipairsFrom fuel (i + 1)

def ipairs : List α := t.ipairsFrom (t.last + 1) 1

def maxInt : Nat := 2 ^ 31 - 1

-- `i` is zero or a key with a value. The linear search counts the values that `ipairs` goes over.
def unboundLoop (i j : Nat) (positive : 0 < j) : Nat :=
  if t.getint j = none then t.binarySearch i j
  else if maxInt / 2 < j then t.ipairs.length
  else unboundLoop j (2 * j) (by omega)
termination_by maxInt - j
decreasing_by
  simp only [maxInt] at *
  omega

def unboundSearch (j : Nat) : Nat := t.unboundLoop j (j + 1) (Nat.succ_pos j)

-- `luaH_getn`, the length operator. A hash part that is empty is searched as well, and found to be.
def getn : Nat :=
  if t.array.getLast?.any Option.isNone then t.binarySearch 0 t.array.length
  else t.unboundSearch t.array.length

def IsBorder (i : Nat) : Prop := (i = 0 ∨ t.getint i ≠ none) ∧ t.getint (i + 1) = none

variable {t}

theorem lookup_beyond {node : List (Nat × α)} {key : Nat} (beyond : maxKey node < key) :
    node.lookup key = none := by
  induction node with
  | nil => rfl
  | cons entry node ih =>
    obtain ⟨other, v⟩ := entry
    rw [maxKey, Nat.max_lt] at beyond
    rw [List.lookup_cons, beq_false_of_ne beyond.1.ne']
    exact ih beyond.2

theorem getint_beyond {key : Nat} (beyond : t.last < key) : t.getint key = none := by
  rw [last, Nat.max_lt] at beyond
  rw [getint, if_neg (by omega), lookup_beyond beyond.2]

theorem binarySearch_border {i j : Nat} (less : i < j) (filled : i = 0 ∨ t.getint i ≠ none)
    (empty : t.getint j = none) : t.IsBorder (t.binarySearch i j) := by
  induction size : j - i using Nat.strong_induction_on generalizing i j with
  | _ n ih =>
    rw [binarySearch]
    split_ifs with more missing
    · exact ih _ (by omega) (by omega) filled missing rfl
    · exact ih _ (by omega) (by omega) (.inr missing) empty rfl
    · obtain rfl : j = i + 1 := by omega
      exact ⟨filled, empty⟩

theorem getint_ipairsFrom {fuel i k : Nat} (inside : k < (t.ipairsFrom fuel i).length) :
    t.getint (i + k) ≠ none := by
  induction fuel generalizing i k with
  | zero => cases inside
  | succ fuel ih =>
    unfold ipairsFrom at inside
    cases here : t.getint i with
    | none => rw [here] at inside; cases inside
    | some v =>
      rw [here] at inside
      cases k with
      | zero =>
        rw [Nat.add_zero, here]
        exact Option.some_ne_none v
      | succ k =>
        have later := ih (Nat.lt_of_succ_lt_succ inside)
        rwa [Nat.add_assoc, Nat.add_comm 1] at later

theorem getint_behind_ipairsFrom {fuel i : Nat} (enough : t.last < i + fuel) :
    t.getint (i + (t.ipairsFrom fuel i).length) = none := by
  induction fuel generalizing i with
  | zero => exact getint_beyond enough
  | succ fuel ih =>
    unfold ipairsFrom
    cases here : t.getint i with
    | none => exact here
    | some v =>
      have later := ih (i := i + 1) (by omega)
      rwa [Nat.add_assoc, Nat.add_comm 1] at later

theorem getint_ipairs {k : Nat} (positive : 1 ≤ k) (inside : k ≤ t.ipairs.length) :
    t.getint k ≠ none := by
  have less : k - 1 < (t.ipairsFrom (t.last + 1) 1).length := by
    unfold ipairs at inside
    omega
  have filled := getint_ipairsFrom less
  rwa [Nat.add_sub_cancel' positive] at filled

theorem getint_behind_ipairs : t.getint (t.ipairs.length + 1) = none := by
  rw [Nat.add_comm]
  exact getint_behind_ipairsFrom (by omega)

theorem ipairs_border : t.IsBorder t.ipairs.length := by
  refine ⟨?_, getint_behind_ipairs⟩
  rcases Nat.eq_zero_or_pos t.ipairs.length with none | some
  · exact .inl none
  · exact .inr (getint_ipairs some (Nat.le_refl _))

theorem unboundLoop_border {i j : Nat} (positive : 0 < j) (less : i < j)
    (filled : i = 0 ∨ t.getint i ≠ none) : t.IsBorder (t.unboundLoop i j positive) := by
  induction size : maxInt - j using Nat.strong_induction_on generalizing i j with
  | _ n ih =>
    rw [unboundLoop]
    split_ifs with empty many
    · exact binarySearch_border less filled empty
    · exact ipairs_border
    · refine ih (maxInt - 2 * j) ?_ _ (by omega) (.inr empty) rfl
      simp only [maxInt] at *
      omega

theorem getn_border : t.IsBorder t.getn := by
  rw [getn]
  split_ifs with hole
  · have last : t.array.getLast? = some none := by
      cases is : t.array.getLast? with
      | none => rw [is] at hole; cases hole
      | some v =>
        rw [is, Option.any_some, Option.isNone_iff_eq_none] at hole
        rw [hole]
    have some : t.array ≠ [] := by
      rintro none
      rw [none] at last
      cases last
    have positive := List.length_pos_iff.mpr some
    refine binarySearch_border positive (.inl rfl) ?_
    rw [getint, if_pos ⟨positive, Nat.le_refl _⟩, ← List.getLast?_eq_getElem?, last]
    rfl
  · refine unboundLoop_border _ (Nat.lt_succ_self _) ?_
    rcases Nat.eq_zero_or_pos t.array.length with none | some
    · exact .inl none
    · right
      rw [getint, if_pos ⟨some, Nat.le_refl _⟩, ← List.getLast?_eq_getElem?]
      cases last : t.array.getLast? with
      | none =>
        rw [List.getLast?_eq_none_iff] at last
        rw [last] at some
        cases some
      | some v =>
        rw [last] at hole
        cases v with
        | none => exact absurd rfl hole
        | some v => exact Option.some_ne_none v

theorem getn_eq_ipairs (holes : ∀ key, t.ipairs.length < key → t.getint key = none) :
    t.getn = t.ipairs.length := by
  obtain ⟨filled, empty⟩ := t.getn_border
  rcases Nat.lt_trichotomy t.getn t.ipairs.length with less | same | more
  · exact absurd empty (getint_ipairs (Nat.succ_pos _) less)
  · exact same
  · rcases filled with zero | some
    · omega
    · exact absurd (holes _ more) some

end Table

end Pskynet.Lua
