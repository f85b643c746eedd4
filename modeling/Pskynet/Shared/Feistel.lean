import Mathlib.Tactic

set_option autoImplicit false

namespace Feistel

-- A round changes one half with what a function makes of the other half and a key, and the halves
-- change their places.
variable {W K : Type} (xor : W → W → W) (mix : K → W → W)

def round (block : W × W) (key : K) : W × W := (block.2, xor block.1 (mix key block.2))

def rounds (keys : List K) (block : W × W) : W × W := keys.foldl (round xor mix) block

variable {xor mix} (cancels : ∀ a b, xor (xor a b) b = a)
include cancels

theorem round_undone (block : W × W) (key : K) :
    round xor mix (round xor mix block key).swap key = block.swap := by
  obtain ⟨left, right⟩ := block
  simp only [round, Prod.swap_prod_mk, cancels]

theorem rounds_reverse (keys : List K) (block : W × W) :
    rounds xor mix keys.reverse (rounds xor mix keys block).swap = block.swap := by
  induction keys generalizing block with
  | nil => rfl
  | cons key rest ih =>
    have inner := ih (round xor mix block key)
    unfold rounds at inner ⊢
    rw [List.reverse_cons, List.foldl_append]
    show round xor mix (rest.reverse.foldl (round xor mix)
      (rest.foldl (round xor mix) (round xor mix block key)).swap) key = block.swap
    rw [inner]
    exact round_undone cancels block key

end Feistel
