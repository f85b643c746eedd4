import Mathlib.Data.List.Basic
import Mathlib.Tactic

set_option autoImplicit false

namespace Framing

-- Packets on a byte stream: each is a header of `header` bytes that gives the size of the
-- body behind it. A header without a size is not accepted.
structure Format where
  header : Nat
  size : List UInt8 → Option Nat
  pos : 0 < header

def next (f : Format) (bytes : List UInt8) : Option (List UInt8 × List UInt8) :=
  match f.size (bytes.take f.header) with
  | none => none
  | some size =>
      if f.header + size ≤ bytes.length then
        some ((bytes.drop f.header).take size, bytes.drop (f.header + size))
      else none

theorem next_of_refused (f : Format) (bytes : List UInt8)
    (refused : f.size (bytes.take f.header) = none) : next f bytes = none := by
  unfold next
  rw [refused]

theorem next_of_part (f : Format) (bytes : List UInt8) (size : Nat)
    (given : f.size (bytes.take f.header) = some size) (part : bytes.length < f.header + size) :
    next f bytes = none := by
  unfold next
  rw [given]
  exact if_neg (by omega)

theorem next_length (f : Format) (bytes body rest : List UInt8)
    (found : next f bytes = some (body, rest)) : rest.length < bytes.length := by
  have pos := f.pos
  unfold next at found
  split at found
  · contradiction
  · split_ifs at found with whole
    simp only [Option.some.injEq, Prod.mk.injEq] at found
    rw [← found.2, List.length_drop]
    omega

def split (f : Format) (bytes : List UInt8) : List (List UInt8) × List UInt8 :=
  match found : next f bytes with
  | none => ([], bytes)
  | some (body, rest) =>
      let later := split f rest
      (body :: later.1, later.2)
termination_by bytes.length
decreasing_by exact next_length f bytes body rest found

theorem split_none (f : Format) (bytes : List UInt8) (short : next f bytes = none) :
    split f bytes = ([], bytes) := by
  rw [split]
  split
  · rfl
  · simp_all

theorem split_some (f : Format) (bytes body rest : List UInt8)
    (found : next f bytes = some (body, rest)) :
    split f bytes = (body :: (split f rest).1, (split f rest).2) := by
  rw [split]
  split <;> simp_all

theorem next_append (f : Format) (bytes body rest more : List UInt8)
    (found : next f bytes = some (body, rest)) :
    next f (bytes ++ more) = some (body, rest ++ more) := by
  unfold next at found
  split at found
  · contradiction
  · rename_i size given
    split_ifs at found with whole
    simp only [Option.some.injEq, Prod.mk.injEq] at found
    have head : (bytes ++ more).take f.header = bytes.take f.header :=
      List.take_append_of_le_length (by omega)
    unfold next
    rw [head, given]
    have enough : f.header + size ≤ (bytes ++ more).length := by
      rw [List.length_append]
      omega
    simp only [enough, if_true, Option.some.injEq, Prod.mk.injEq]
    rw [List.drop_append_of_le_length (by omega), List.drop_append_of_le_length (by omega),
      List.take_append_of_le_length (by rw [List.length_drop]; omega)]
    exact ⟨found.1, by rw [found.2]⟩

theorem split_append (f : Format) (bytes more : List UInt8) :
    split f (bytes ++ more) =
      ((split f bytes).1 ++ (split f ((split f bytes).2 ++ more)).1,
        (split f ((split f bytes).2 ++ more)).2) := by
  induction size : bytes.length using Nat.strong_induction_on generalizing bytes with
  | _ n ih =>
    cases found : next f bytes with
    | none =>
      rw [split_none f bytes found]
      simp
    | some pair =>
      obtain ⟨body, rest⟩ := pair
      have shorter := next_length f bytes body rest found
      have later := ih rest.length (by omega) rest rfl
      rw [split_some f bytes body rest found,
        split_some f (bytes ++ more) body (rest ++ more) (next_append f _ _ _ more found), later]
      simp

theorem length_split (f : Format) (bytes : List UInt8) :
    (split f bytes).2.length ≤ bytes.length := by
  induction size : bytes.length using Nat.strong_induction_on generalizing bytes with
  | _ n ih =>
    cases found : next f bytes with
    | none => rw [split_none f bytes found, size]
    | some pair =>
      obtain ⟨body, rest⟩ := pair
      have shorter := next_length f bytes body rest found
      have later := ih rest.length (by omega) rest rfl
      rw [split_some f bytes body rest found]
      exact later.trans (by omega)

theorem next_packet (f : Format) (head body rest : List UInt8) (length : head.length = f.header)
    (size : f.size head = some body.length) :
    next f (head ++ body ++ rest) = some (body, rest) := by
  have front : (head ++ body ++ rest).take f.header = head := by
    rw [List.append_assoc, ← length, List.take_left]
  have enough : f.header + body.length ≤ (head ++ body ++ rest).length := by
    simp only [List.length_append]
    omega
  unfold next
  rw [front, size]
  simp only [enough, if_true, Option.some.injEq, Prod.mk.injEq]
  constructor
  · rw [List.append_assoc, ← length, List.drop_left, List.take_left]
  · rw [← length, ← List.length_append, List.drop_left]

theorem split_packets (f : Format) {P : Type} (packets : List P) (head body : P → List UInt8)
    (length : ∀ p ∈ packets, (head p).length = f.header)
    (size : ∀ p ∈ packets, f.size (head p) = some (body p).length) (rest : List UInt8) :
    split f (packets.flatMap (fun p => head p ++ body p) ++ rest) =
      (packets.map body ++ (split f rest).1, (split f rest).2) := by
  induction packets with
  | nil => simp
  | cons p packets ih =>
    have first := next_packet f (head p) (body p)
      (packets.flatMap (fun p => head p ++ body p) ++ rest) (length p (by simp)) (size p (by simp))
    have later := ih (fun q inside => length q (by simp [inside]))
      (fun q inside => size q (by simp [inside]))
    rw [List.flatMap_cons, List.append_assoc]
    rw [split_some f _ _ _ first, later]
    simp

end Framing
