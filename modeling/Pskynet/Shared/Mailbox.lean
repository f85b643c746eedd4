import Mathlib.Data.List.Perm.Basic
import Mathlib.Tactic

set_option autoImplicit false

namespace Mailbox

variable {N M : Type} [DecidableEq N]

def take (sender : N) : List (N × M) → Option (M × List (N × M))
  | [] => none
  | (other, message) :: rest =>
      if other = sender then some (message, rest)
      else (take sender rest).map fun found => (found.1, (other, message) :: found.2)

variable {sender : N} {mail rest : List (N × M)} {message : M}

theorem take_perm (taken : take sender mail = some (message, rest)) :
    mail.Perm ((sender, message) :: rest) := by
  induction mail generalizing rest with
  | nil => cases taken
  | cons letter later ih =>
    obtain ⟨other, first⟩ := letter
    simp only [take] at taken
    split_ifs at taken with here
    · cases taken
      rw [here]
    · obtain ⟨⟨found, left⟩, later_, same⟩ := Option.map_eq_some_iff.mp taken
      cases same
      exact ((ih later_).cons _).trans (.swap _ _ _)

end Mailbox
