import Mathlib.Tactic

set_option autoImplicit false

namespace Pskynet.Lua

-- A `double` is its 64 bits, a pointer its address.
inductive Scalar where
  | nil
  | boolean (value : Bool)
  | integer (value : Int64)
  | number (bits : UInt64)
  | string (bytes : List UInt8)
  | lightuserdata (address : UInt64)
  deriving DecidableEq, Repr

inductive OtherType where
  | function
  | userdata
  | thread
  deriving DecidableEq, Repr

-- The entries of a table are in the order of `lua_next`; `rawlen` is the border that
-- `lua_rawlen` finds in it.
inductive LuaValue where
  | scalar (value : Scalar)
  | table (rawlen : Nat) (entries : List (LuaValue × LuaValue))
  | other (type : OtherType)
  deriving Repr

abbrev Entries := List (LuaValue × LuaValue)

def nil : LuaValue := .scalar .nil

def LuaValue.isNil : LuaValue → Bool
  | .scalar .nil => true
  | _ => false

def LuaValue.typename : LuaValue → String
  | .scalar .nil => "nil"
  | .scalar (.boolean _) => "boolean"
  | .scalar (.integer _) | .scalar (.number _) => "number"
  | .scalar (.string _) => "string"
  | .scalar (.lightuserdata _) | .other .userdata => "userdata"
  | .table _ _ => "table"
  | .other .function => "function"
  | .other .thread => "thread"

-- `LUA_MINSTACK`, the free slots of a C function when Lua calls it.
def minStack : Nat := 20

def text (bytes : List UInt8) : String :=
  String.ofList (bytes.map fun byte => Char.ofNat byte.toNat)

-- `luaV_rawequalobj` with a scalar
def LuaValue.isScalar (value : LuaValue) (key : Scalar) : Bool :=
  match value with
  | .scalar value => value = key
  | _ => false

def rawget : Entries → Scalar → LuaValue
  | [], _ => nil
  | (found, value) :: entries, key => if found.isScalar key then value else rawget entries key

def rawgeti (entries : Entries) (i : Nat) : LuaValue := rawget entries (.integer (Int64.ofNat i))

def exponent (bits : UInt64) : Nat := bits.toNat / 2 ^ 52 % 2 ^ 11

def mantissa (bits : UInt64) : Nat := bits.toNat % 2 ^ 52

def isNaN (bits : UInt64) : Bool := exponent bits = 2047 ∧ mantissa bits ≠ 0

-- The value of a `double` without a fraction, up to its sign.
def integral (bits : UInt64) : Option Nat :=
  let significand := 2 ^ 52 + mantissa bits
  if exponent bits = 2047 then none
  else if exponent bits = 0 then if mantissa bits = 0 then some 0 else none
  else if 1075 ≤ exponent bits then some (significand * 2 ^ (exponent bits - 1075))
  else if significand % 2 ^ (1075 - exponent bits) = 0 then
    some (significand / 2 ^ (1075 - exponent bits))
  else none

def numisinteger (bits : UInt64) : Option Int64 :=
  (integral bits).bind fun n =>
    let value : Int := if 2 ^ 63 ≤ bits.toNat then -n else n
    if -2 ^ 63 ≤ value ∧ value < 2 ^ 63 then some (Int64.ofInt value) else none

def toKey : Scalar → Except String Scalar
  | .nil => .error "table index is nil"
  | .number bits =>
      if isNaN bits then .error "table index is NaN"
      else
        match numisinteger bits with
        | some value => .ok (.integer value)
        | none => .ok (.number bits)
  | key => .ok key

def store (entries : Entries) (key : Scalar) (value : LuaValue) : Entries :=
  let others := entries.filter fun entry => !entry.1.isScalar key
  if value.isNil then others else others ++ [(.scalar key, value)]

def rawset (entries : Entries) (key value : LuaValue) : Except String Entries :=
  match key with
  | .scalar key => (toKey key).map fun key => store entries key value
  | key => .ok (if value.isNil then entries else entries ++ [(key, value)])

def rawseti (entries : Entries) (i : Nat) (value : LuaValue) : Entries :=
  store entries (.integer (Int64.ofNat i)) value

theorem isScalar_iff (value : LuaValue) (key : Scalar) :
    value.isScalar key = true ↔ value = .scalar key := by
  cases value <;> simp [LuaValue.isScalar]

theorem isNil_iff (value : LuaValue) : value.isNil = true ↔ value = nil := by
  cases value with
  | scalar value => cases value <;> simp [LuaValue.isNil, nil]
  | table | other => simp [LuaValue.isNil, nil]

theorem rawget_cases (entries : Entries) (key : Scalar) :
    rawget entries key = nil ∧ (∀ entry ∈ entries, entry.1 ≠ .scalar key) ∨
      ∃ entry ∈ entries, entry.1 = .scalar key ∧ rawget entries key = entry.2 := by
  induction entries with
  | nil => exact .inl ⟨rfl, by simp⟩
  | cons entry entries ih =>
    obtain ⟨found, value⟩ := entry
    by_cases here : found.isScalar key = true
    · refine .inr ⟨(found, value), by simp, (isScalar_iff _ _).mp here, ?_⟩
      rw [rawget, if_pos here]
    · rw [rawget, if_neg here]
      rcases ih with ⟨none, missing⟩ | ⟨other, inside, same, result⟩
      · refine .inl ⟨none, ?_⟩
        rintro other (_ | ⟨_, inside⟩)
        · rwa [isScalar_iff] at here
        · exact missing other inside
      · exact .inr ⟨other, by simp [inside], same, result⟩

theorem rawget_others (entries : Entries) (key other : Scalar) :
    rawget (entries.filter fun entry => !entry.1.isScalar key) other =
      if other = key then nil else rawget entries other := by
  induction entries with
  | nil => simp [rawget]
  | cons entry entries ih =>
    obtain ⟨found, value⟩ := entry
    by_cases dropped : found = .scalar key
    · rw [List.filter_cons_of_neg (by simp [(isScalar_iff _ _).mpr dropped]), ih]
      split_ifs with same
      · rfl
      · have skip : ¬found.isScalar other = true := by
          rw [isScalar_iff, dropped]
          simpa using Ne.symm same
        rw [rawget, if_neg skip]
    · have kept : ¬found.isScalar key = true := by
        rw [isScalar_iff]
        exact dropped
      rw [List.filter_cons_of_pos (by simp [kept]), rawget, rawget, ih]
      split_ifs with here same
      · exact absurd (same ▸ (isScalar_iff _ _).mp here) dropped
      all_goals rfl

theorem rawget_append (entries : Entries) (key other : Scalar) (value : LuaValue)
    (fresh : ∀ entry ∈ entries, entry.1 ≠ .scalar key) :
    rawget (entries ++ [(.scalar key, value)]) other =
      if other = key then value else rawget entries other := by
  induction entries with
  | nil =>
    simp only [List.nil_append, rawget, isScalar_iff, LuaValue.scalar.injEq]
    simp only [eq_comm]
  | cons entry entries ih =>
    obtain ⟨found, old⟩ := entry
    rw [List.cons_append, rawget, rawget, ih fun entry inside => fresh entry (by simp [inside])]
    split_ifs with here same
    · refine absurd ?_ (fresh (found, old) (by simp))
      rw [← same]
      exact (isScalar_iff _ _).mp here
    all_goals rfl

theorem rawget_store (entries : Entries) (key other : Scalar) (value : LuaValue) :
    rawget (store entries key value) other =
      if other = key then value else rawget entries other := by
  have others := rawget_others entries key other
  unfold store
  simp only
  split_ifs with empty same same
  · rw [others, if_pos same, (isNil_iff value).mp empty]
  · rw [others, if_neg same]
  all_goals
    rw [rawget_append]
    · simp [same, others]
    · intro entry inside
      have kept := (List.mem_filter.mp inside).2
      rw [ne_eq, ← isScalar_iff]
      simpa using kept

end Pskynet.Lua
