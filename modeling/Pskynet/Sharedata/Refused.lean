import Pskynet.Sharedata.Filling

set_option autoImplicit false

namespace Pskynet.Sharedata

open Lua ChainedHash Outcome

-- A table that is somewhere in `root`, or `root` itself.
inductive Part : LuaValue → LuaValue → Prop where
  | self (v : LuaValue) : Part v v
  | value {sizearray : Nat} {entries : Entries} {e : LuaValue × LuaValue} {v : LuaValue}
      (inside : e ∈ entries) (part : Part e.2 v) : Part (.table sizearray entries) v

-- What Lua keeps of a table: a scalar is a key once and no value is nil. The border is an `int`.
structure LuaTable (sizearray : Nat) (entries : Entries) : Prop where
  nodup : entries.Pairwise fun e other => ∀ name, e.1 = .scalar name → other.1 ≠ .scalar name
  values : ∀ e ∈ entries, e.2 ≠ nil
  border : sizearray < 2 ^ 31

def WellFormed (root : LuaValue) : Prop :=
  ∀ sizearray entries, Part root (.table sizearray entries) → LuaTable sizearray entries

-- The types of keys that `countsize` raises an error for.
def Unkeyed : LuaValue → Prop
  | .scalar (.integer _) | .scalar (.string _) | .table _ _ => False
  | _ => True

def copiedKey : LuaValue → Scalar
  | .scalar (.integer n) => .integer n.toInt32.toInt64
  | .scalar (.number bits) => .integer ((numisinteger bits).getD 0).toInt32.toInt64
  | .scalar (.string str) => .string str
  | _ => .string []

def copiedPairs (entries : Entries) : List (Scalar × LuaValue) :=
  entries.map fun e => (copiedKey e.1, e.2)

-- The keys that `countsize` counts.
def slotted (sizearray : Nat) : LuaValue → Bool
  | .scalar (.integer n) => ¬(0 < n.toInt ∧ n.toInt ≤ sizearray)
  | _ => true

def hashsize (sizearray : Nat) (entries : Entries) : Nat :=
  entries.countP fun e => slotted sizearray e.1

def position (size : Nat) (name : Scalar) : Nat := (hashKey name).toNat % size

def headAt (size : Nat) (names : List Scalar) (p : Nat) : Option Scalar :=
  names.find? fun name => position size name = p

def Early (sizearray size : Nat) (done : List (Scalar × LuaValue)) (name : Scalar) : Prop :=
  InArray sizearray name ∨ headAt size (hashKeys sizearray done) (position size name) = none

def Late (sizearray size : Nat) (all : List (Scalar × LuaValue)) (name : Scalar) : Prop :=
  ¬InArray sizearray name ∧
    headAt size (hashKeys sizearray all) (position size name) ≠ some name

def Copied (sizearray : Nat) (entries : Entries) (v : LuaValue) : Prop :=
  let size := hashsize sizearray entries
  Somewhere (fun done pair => pair.2 = v ∧
    (Early sizearray size done pair.1 ∨ Late sizearray size (copiedPairs entries) pair.1))
    (copiedPairs entries)

inductive Refused : Nat → LuaValue → Prop where
  | pointer (levels : Nat) (address : UInt64) : Refused levels (.scalar (.lightuserdata address))
  | other (levels : Nat) (type : OtherType) : Refused levels (.other type)
  | deep (sizearray : Nat) (entries : Entries) : Refused 0 (.table sizearray entries)
  | key {levels sizearray : Nat} {entries : Entries} (unkeyed : ∃ e ∈ entries, Unkeyed e.1) :
      Refused (levels + 1) (.table sizearray entries)
  | value {levels sizearray : Nat} {entries : Entries} {v : LuaValue}
      (copied : Copied sizearray entries v) (refused : Refused levels v) :
      Refused (levels + 1) (.table sizearray entries)

inductive Text : LuaValue → List UInt8 → Prop where
  | string (str : List UInt8) : Text (.scalar (.string str)) str
  | key {sizearray : Nat} {entries : Entries} {str : List UInt8}
      (inside : .string str ∈ hashKeys sizearray (copiedPairs entries)) :
      Text (.table sizearray entries) str
  | value {sizearray : Nat} {entries : Entries} {v : LuaValue} {str : List UInt8}
      (copied : Copied sizearray entries v) (text : Text v str) : Text (.table sizearray entries) str

def Raised : Fault → Prop
  | .error _ | .invalidKey _ => True
  | .assertion | .undefined => False

variable {sizearray size levels : Nat} {name : Scalar} {v : LuaValue}
  {done all rest : List (Scalar × LuaValue)} {entries : Entries}

theorem copiedKey_isKey (key : LuaValue) : IsKey (copiedKey key) := by
  have narrow (n : Int32) : IsKey (.integer n.toInt64) := by
    have low := n.le_toInt
    have high := n.toInt_lt
    rw [← Int32.toInt_toInt64] at low high
    exact ⟨low, high⟩
  unfold copiedKey
  split
  · exact narrow _
  · exact narrow _
  · trivial
  · trivial

theorem ishashkey_copiedKey (ctx : Context) (key : LuaValue) :
    ishashkey ctx sizearray key = ishashkey ctx sizearray (.scalar (copiedKey key)) := by
  cases key with
  | scalar key =>
    cases key with
    | integer n => simp only [copiedKey, ishashkey, Int32.toInt32_toInt64]
    | number bits => simp only [copiedKey, ishashkey, Int32.toInt32_toInt64]
    | nil | boolean | string | lightuserdata => rfl
  | table | other => rfl

theorem placeNocolliding_copiedKey (convert : Convert) (made : Context × Table Value)
    (e : LuaValue × LuaValue) :
    placeNocolliding convert made e = placeNocolliding convert made (entry (copiedKey e.1, e.2)) := by
  unfold placeNocolliding
  rw [ishashkey_copiedKey]
  rfl

theorem placeColliding_copiedKey (convert : Convert) (made : Context × Table Value)
    (e : LuaValue × LuaValue) :
    placeColliding convert made e = placeColliding convert made (entry (copiedKey e.1, e.2)) := by
  unfold placeColliding
  rw [ishashkey_copiedKey]
  rfl

theorem countsize_decides (entries : Entries) :
    Decides Raised (∃ e ∈ entries, Unkeyed e.1) (countsize sizearray entries)
      (fun n => n = hashsize sizearray entries) := by
  induction entries with
  | nil => exact ⟨by simp, rfl⟩
  | cons e entries ih =>
    obtain ⟨key, value⟩ := e
    have rest (next : Nat → Nat) (keyed : ¬Unkeyed key)
        (counts : ∀ n, next n = n + if slotted sizearray key then 1 else 0) :
        Decides Raised (∃ e ∈ (key, value) :: entries, Unkeyed e.1)
          ((countsize sizearray entries).map next)
          (fun n => n = hashsize sizearray ((key, value) :: entries)) := by
      refine decides_map (decides_mono ih ?_ ?_)
      · simp [keyed]
      · intro n _ same
        rw [counts, same, hashsize, hashsize, List.countP_cons]
    have stops (fault : Fault) (raised : Raised fault) (unkeyed : Unkeyed key) :
        Decides Raised (∃ e ∈ (key, value) :: entries, Unkeyed e.1) (.error fault)
          (fun n => n = hashsize sizearray ((key, value) :: entries)) :=
      ⟨⟨_, List.mem_cons_self, unkeyed⟩, raised⟩
    cases key with
    | scalar key =>
      cases key with
      | integer n =>
        refine rest _ id ?_
        intro n
        simp only [slotted]
        split_ifs <;> simp_all
      | string str => exact rest _ id fun n => rfl
      | nil | boolean | number | lightuserdata => exact stops _ trivial trivial
    | table => exact rest _ id fun n => rfl
    | other => exact stops _ trivial trivial

end Pskynet.Sharedata
