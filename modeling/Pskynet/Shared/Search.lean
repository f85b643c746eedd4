import Mathlib.Data.List.Infix
import Mathlib.Tactic

set_option autoImplicit false

namespace Search

variable {α : Type} {needle text : List α}

-- The needle is in the text from `i` on, and not from any place before.
def FirstAt (needle text : List α) (i : Nat) : Prop :=
  needle <+: text.drop i ∧ ∀ j < i, ¬needle <+: text.drop j

theorem firstAt_zero : FirstAt needle text 0 ↔ needle <+: text := by
  simp [FirstAt]

theorem firstAt_succ (a : α) (i : Nat) :
    FirstAt needle (a :: text) (i + 1) ↔ ¬needle <+: a :: text ∧ FirstAt needle text i := by
  constructor
  · rintro ⟨here, before⟩
    refine ⟨before 0 (Nat.succ_pos i), here, ?_⟩
    exact fun j less => before (j + 1) (Nat.succ_lt_succ less)
  · rintro ⟨first, here, before⟩
    refine ⟨here, ?_⟩
    intro j less
    cases j with
    | zero => exact first
    | succ j => exact before j (Nat.lt_of_succ_lt_succ less)

theorem FirstAt.length_le {i : Nat} (first : FirstAt needle text i) (filled : needle ≠ []) :
    i + needle.length ≤ text.length := by
  have inside := first.1.length_le
  have positive := List.length_pos_iff.mpr filled
  rw [List.length_drop] at inside
  omega

theorem FirstAt.infix {i : Nat} (first : FirstAt needle text i) : needle <:+: text :=
  first.1.isInfix.trans (List.drop_suffix i text).isInfix

theorem not_infix_of_forall {a : α} (plain : ∀ b ∈ text, b ≠ a) : ¬a :: needle <:+: text :=
  fun inside => plain a (inside.subset List.mem_cons_self) rfl

theorem not_infix_concat {a : α} (ends : needle.getLast? ≠ some a) (apart : ¬needle <:+: text) :
    ¬needle <:+: text ++ [a] := by
  intro inside
  rcases List.infix_concat_iff.mp inside with last | before
  · obtain ⟨front, same⟩ := last
    rcases needle.eq_nil_or_concat with rfl | ⟨init, b, rfl⟩
    · exact apart List.nil_infix
    · have lasts := congrArg List.getLast? same
      rw [List.concat_eq_append, ← List.append_assoc, List.getLast?_concat, List.getLast?_concat]
        at lasts
      rw [List.concat_eq_append, List.getLast?_concat] at ends
      exact ends lasts
  · exact apart before

theorem exists_firstAt (inside : needle <:+: text) : ∃ i, FirstAt needle text i := by
  classical
  have somewhere : ∃ i, needle <+: text.drop i := by
    obtain ⟨left, right, rfl⟩ := inside
    refine ⟨left.length, ?_⟩
    rw [List.append_assoc, List.drop_left]
    exact List.prefix_append _ _
  exact ⟨Nat.find somewhere, Nat.find_spec somewhere, fun _ less => Nat.find_min somewhere less⟩

theorem FirstAt.unique {i j : Nat} (one : FirstAt needle text i) (two : FirstAt needle text j) :
    i = j := by
  rcases Nat.lt_trichotomy i j with less | same | more
  · exact absurd one.1 (two.2 i less)
  · exact same
  · exact absurd two.1 (one.2 j more)

theorem firstAt_append (text rest : List α) (apart : ¬needle <:+: text ++ needle.dropLast) :
    FirstAt needle (text ++ needle ++ rest) text.length := by
  constructor
  · rw [List.append_assoc, List.drop_left]
    exact List.prefix_append _ _
  · intro j less here
    refine apart (List.IsInfix.trans ?_ (List.drop_suffix j _).isInfix)
    have whole : text ++ needle ++ rest = text ++ needle.dropLast ++ (needle.drop (needle.length - 1) ++ rest) := by
      rw [List.append_assoc text needle.dropLast, ← List.append_assoc needle.dropLast,
        List.dropLast_eq_take, List.take_append_drop, List.append_assoc]
    have long : needle.length ≤ ((text ++ needle.dropLast).drop j).length := by
      rw [List.length_drop, List.length_append, List.length_dropLast]
      omega
    rw [whole, List.drop_append_of_le_length (by rw [List.length_append]; omega)] at here
    exact (List.prefix_of_prefix_length_le here (List.prefix_append _ _) long).isInfix

theorem FirstAt.append {i : Nat} (first : FirstAt needle text i) (filled : needle ≠ [])
    (rest : List α) : FirstAt needle (text ++ rest) i := by
  have inside := first.length_le filled
  constructor
  · rw [List.drop_append_of_le_length (by omega)]
    exact first.1.trans (List.prefix_append _ _)
  · intro j less here
    rw [List.drop_append_of_le_length (by omega)] at here
    refine first.2 j less (List.prefix_of_prefix_length_le here (List.prefix_append _ _) ?_)
    rw [List.length_drop]
    omega

theorem FirstAt.front {i : Nat} {before rest : List α} (first : FirstAt needle (before ++ rest) i)
    (cut : i + needle.length ≤ before.length) : FirstAt needle before i := by
  have front {j : Nat} (le : j + needle.length ≤ before.length) :
      needle <+: (before ++ rest).drop j ↔ needle <+: before.drop j := by
    rw [List.drop_append_of_le_length (by omega)]
    refine ⟨fun here => ?_, fun here => here.trans (List.prefix_append _ _)⟩
    refine List.prefix_of_prefix_length_le here (List.prefix_append _ _) ?_
    rw [List.length_drop]
    omega
  exact ⟨(front cut).mp first.1, fun j less here => first.2 j less ((front (by omega)).mpr here)⟩

theorem FirstAt.not_infix_front {i : Nat} {before rest : List α}
    (first : FirstAt needle (before ++ rest) i) (cut : before.length < i + needle.length) :
    ¬needle <:+: before := by
  rintro ⟨left, right, whole⟩
  have length := congrArg List.length whole
  rw [List.length_append, List.length_append] at length
  refine first.2 left.length (by omega) ?_
  rw [← whole, List.append_assoc, List.append_assoc, List.drop_left]
  exact List.prefix_append _ _

variable [DecidableEq α]

def find (needle : List α) : List α → Option Nat
  | [] => none
  | a :: rest => if needle <+: a :: rest then some 0 else (find needle rest).map (· + 1)

theorem find_some_iff (filled : needle ≠ []) (text : List α) (i : Nat) :
    find needle text = some i ↔ FirstAt needle text i := by
  induction text generalizing i with
  | nil =>
    refine ⟨fun found => (Option.some_ne_none i found.symm).elim, fun first => ?_⟩
    have inside := first.length_le filled
    have positive := List.length_pos_iff.mpr filled
    rw [List.length_nil] at inside
    omega
  | cons a rest ih =>
    simp only [find]
    by_cases here : needle <+: a :: rest
    · rw [if_pos here]
      have first : FirstAt needle (a :: rest) 0 := firstAt_zero.mpr here
      constructor
      · intro found
        exact Option.some.inj found ▸ first
      · intro other
        rw [first.unique other]
    · rw [if_neg here]
      cases i with
      | zero => simp [firstAt_zero, here]
      | succ i =>
        rw [firstAt_succ, ← ih i]
        simp [here]

theorem find_none_iff (filled : needle ≠ []) (text : List α) :
    find needle text = none ↔ ¬needle <:+: text := by
  induction text with
  | nil => simp [find, filled]
  | cons a rest ih =>
    simp only [find, List.infix_cons_iff, not_or, ← ih]
    by_cases here : needle <+: a :: rest
    · simp [here]
    · simp [here]

theorem find_behind (filled : needle ≠ []) {before : List α} (apart : ¬needle <:+: before)
    (piece : List α) {w : Nat} (window : w + needle.length ≤ before.length + 1 ∨ w = 0) :
    (find needle ((before ++ piece).drop w)).map (· + w) = find needle (before ++ piece) := by
  have later {j : Nat} (here : needle <+: (before ++ piece).drop j) : w ≤ j := by
    by_contra less
    refine apart (List.IsInfix.trans ?_ (List.drop_suffix j before).isInfix)
    rw [List.drop_append_of_le_length (by omega)] at here
    refine (List.prefix_of_prefix_length_le here (List.prefix_append _ _) ?_).isInfix
    rw [List.length_drop]
    omega
  ext i
  simp only [Option.map_eq_some_iff, find_some_iff filled]
  constructor
  · rintro ⟨k, ⟨here, before_⟩, rfl⟩
    rw [List.drop_drop, Nat.add_comm] at here
    refine ⟨here, fun j less found => before_ (j - w) (by have := later found; omega) ?_⟩
    rwa [List.drop_drop, Nat.add_sub_cancel' (later found)]
  · rintro ⟨here, before_⟩
    refine ⟨i - w, ⟨?_, fun j less found => before_ (w + j) (by omega) ?_⟩, ?_⟩
    · rwa [List.drop_drop, Nat.add_sub_cancel' (later here)]
    · rwa [List.drop_drop] at found
    · exact Nat.sub_add_cancel (later here)

end Search
