import Pskynet.Bson.RoundTrip

set_option autoImplicit false

namespace Pskynet.Bson

theorem fitsInt32_iff (i : Int64) :
    fitsInt32 i = true ↔ (-2 ^ 31 ≤ i.toInt ∧ i.toInt < 2 ^ 31) ∨
      2 ^ 63 - 2 ^ 31 ≤ i.toInt ∨ i.toInt < -2 ^ 63 + 2 ^ 31 := by
  have low := i.le_toInt
  have high := i.toInt_lt
  have shifted := Words.toInt_shiftRight_31 i
  have half : (i >>> 31).toInt32.toInt = (i.toInt / 2 ^ 31).bmod (2 ^ 32) := by
    rw [Int64.toInt_toInt32, shifted]
  have kept (q : Int) (least : -2 ^ 32 ≤ q) (most : q < 2 ^ 32) :
      (q.bmod (2 ^ 32) = 0 ∨ q.bmod (2 ^ 32) = -1) ↔
        (q = 0 ∨ q = -1) ∨ q = 2 ^ 32 - 1 ∨ q = -2 ^ 32 := by
    simp only [Int.bmod]
    split_ifs <;> omega
  simp only [fitsInt32, decide_eq_true_eq, ← Int32.toInt_inj, half]
  exact (kept (i.toInt / 2 ^ 31) (by omega) (by omega)).trans (by omega)

theorem narrowed_eq_iff (i : Int64) (wide : i.toInt < -2 ^ 31 ∨ 2 ^ 31 ≤ i.toInt) :
    narrowed i = i ↔ -2 ^ 63 + 2 ^ 31 ≤ i.toInt ∧ i.toInt < 2 ^ 63 - 2 ^ 31 := by
  have fits := fitsInt32_iff i
  unfold narrowed
  split_ifs with narrow
  · have outside := fits.mp narrow
    constructor
    · intro same
      have bounds := Words.toInt_of_narrow i same.symm
      omega
    · omega
  · have inside := mt fits.mpr narrow
    exact ⟨fun _ => by omega, fun _ => rfl⟩

theorem narrowed_narrow (i : Int64) (low : -2 ^ 31 ≤ i.toInt) (high : i.toInt < 2 ^ 31) :
    narrowed i = i := by
  rw [narrowed, if_pos ((fitsInt32_iff i).mpr (.inl ⟨low, high⟩)), ← Int64.toInt_inj,
    Int32.toInt_toInt64, Int64.toInt_toInt32]
  exact Int.bmod_eq_of_le (by omega) (by omega)

def Value.index : Value → List Key → Value
  | value, [] => value
  | .table _ entries, key :: keys => (rawget entries key).index keys
  | _, _ :: _ => .nil

section

variable (number2str : UInt64 → List UInt8)

def wirePath : Value → List Key → List Key
  | .table rawlen entries, key :: keys =>
      wireKey number2str (isArray rawlen entries matches .ok true) key ::
        wirePath (rawget entries key) keys
  | _, keys => keys

theorem nil_index (keys : List Key) : Value.nil.index keys = .nil := by
  cases keys <;> rfl

theorem readsBack_index (value value' : Value) (back : ReadsBack number2str value value')
    (keys : List Key) (i : Int64) (found : value.index keys = .integer i) :
    value'.index (wirePath number2str value keys) = .integer (narrowed i) := by
  induction keys generalizing value value' with
  | nil =>
    obtain rfl : value = .integer i := by
      cases value <;> exact found
    cases back with
    | integer i => rfl
  | cons key keys ih =>
    cases back with
    | table rawlen rawlen' entries entries' array choice there only =>
      rw [Value.index] at found
      have flag : (isArray rawlen entries matches .ok true) = array := by
        rw [choice]
        cases array <;> rfl
      rw [wirePath, Value.index, flag]
      rcases rawget_cases entries key with empty | ⟨entry, inside, rfl, same⟩
      · rw [empty, nil_index] at found
        exact nomatch found
      · rw [same] at found ⊢
        exact ih entry.2 _ (there entry inside) found
    | boolean | integer | number | string => exact nomatch found

variable (border : Entries → Nat)

end

def nested : Entries :=
  [(.string [0x61], .table 1 [(.integer 1, .integer 0x10000000000)]), (.integer 7, .boolean true)]

end Pskynet.Bson
