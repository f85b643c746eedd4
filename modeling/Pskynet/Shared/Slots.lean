import Mathlib.Tactic

set_option autoImplicit false

namespace Slots

variable {ε α β : Type}

-- What a computation gives for which `need` of the `room` free slots of a stack have to suffice.
def within (full : ε) (room need : Nat) (value : α) : Except ε α :=
  if need ≤ room then .ok value else .error full

-- The slots that are left when `need` of them are taken.
def claim (full : ε) (room need : Nat) : Except ε Nat := within full room need (room - need)

variable {full : ε} {room need more : Nat} {value : α} {result : β}

theorem within_of_le (fits : need ≤ room) : within full room need value = .ok value := if_pos fits

theorem within_of_lt (short : room < need) : within full room need value = .error full :=
  if_neg (not_le.mpr short)

theorem within_ok {other : α} (done : within full room need value = .ok other) :
    need ≤ room ∧ value = other := by
  unfold within at done
  split_ifs at done with fits
  exact ⟨fits, Except.ok.inj done⟩

theorem within_image (f : α → β) :
    (within full room need value).map f = within full room need (f value) := by
  unfold within
  split_ifs <;> rfl

theorem within_bind {next : α → Except ε β} (then_ : next value = within full room more result) :
    within full room need value >>= next = within full room (max need more) result := by
  by_cases fits : need ≤ room
  · rw [within_of_le fits]
    show next value = _
    rw [then_]
    unfold within
    simp [fits]
  · rw [within_of_lt (not_le.mp fits), within_of_lt (lt_max_of_lt_left (not_le.mp fits))]
    rfl

theorem within_bind_le (less : more ≤ need) {next : α → Except ε β}
    (then_ : next value = within full room more result) :
    within full room need value >>= next = within full room need result := by
  rw [within_bind then_, max_eq_left less]

theorem within_map {next : α → Except ε β} (then_ : next value = .ok result) :
    within full room need value >>= next = within full room need result := by
  by_cases fits : need ≤ room
  · rw [within_of_le fits, within_of_le fits]
    exact then_
  · rw [within_of_lt (not_le.mp fits), within_of_lt (not_le.mp fits)]
    rfl

theorem claim_bind {next : Nat → Except ε β}
    (then_ : next (room - need) = within full (room - need) more result) :
    claim full room need >>= next = within full room (need + more) result := by
  by_cases fits : need ≤ room
  · rw [claim, within_of_le fits]
    show next (room - need) = _
    rw [then_]
    unfold within
    simp only [Nat.le_sub_iff_add_le' fits]
  · rw [claim, within_of_lt (not_le.mp fits), within_of_lt (by omega)]
    rfl

theorem within_sub (some : 0 < more) :
    within full (room - need) more value = within full room (need + more) value := by
  have same : more ≤ room - need ↔ need + more ≤ room := by omega
  simp only [within, same]

-- The slots for several jobs of which one is done after the other.
def most (needs : List Nat) : Nat := needs.foldr max 0

@[simp] theorem most_nil : most [] = 0 := rfl

@[simp] theorem most_cons (needs : List Nat) : most (need :: needs) = max need (most needs) := rfl

theorem most_le_iff (needs : List Nat) : most needs ≤ room ↔ ∀ need ∈ needs, need ≤ room := by
  induction needs with
  | nil => simp
  | cons need needs ih => rw [most_cons, max_le_iff, ih, List.forall_mem_cons]

theorem most_map_le_iff (need : α → Nat) (items : List α) :
    most (items.map need) ≤ room ↔ ∀ item ∈ items, need item ≤ room := by
  rw [most_le_iff, List.forall_mem_map]

end Slots
