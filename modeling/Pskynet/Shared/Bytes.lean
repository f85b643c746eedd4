import Mathlib.Tactic

set_option autoImplicit false

namespace Bytes

theorem forall_byte (P : UInt8 → Prop) (all : ∀ n < 256, P (UInt8.ofNat n)) (c : UInt8) : P c := by
  have held := all c.toNat c.toNat_lt
  rwa [UInt8.ofNat_toNat] at held

end Bytes
