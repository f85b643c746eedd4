import Pskynet.Lua.Value
import Pskynet.Shared.ChainedHash
import Pskynet.Shared.Outcome

set_option autoImplicit false

namespace Pskynet.Sharedata

open Lua ChainedHash Outcome

-- A key in a `node`. A string is its index in the string map.
inductive Key where
  | integer (key : Int32)
  | string (index : Nat)
  deriving DecidableEq

-- A slot that is `none` has the value type `VALUETYPE_NIL`, and its key was never set.
structure Table (V : Type) where
  array : List V
  hash : List (Option (Slot Key V))

inductive Value where
  | nil
  | real (bits : UInt64)
  | string (index : Nat)
  | boolean (value : Bool)
  | table (table : Table Value)
  | integer (value : Int64)

inductive Fault where
  | error (text : String)
  | invalidKey (bits : UInt64)
  | assertion
  | undefined
  deriving DecidableEq

-- The string map of a `context`, by index. Index 1 is the state of the object.
structure Context where
  strings : List (List UInt8)

def Context.stringIndex (ctx : Context) : Nat := ctx.strings.length + 1

def countsize (sizearray : Nat) : Entries → Except Fault Nat
  | [] => .ok 0
  | (key, _) :: entries =>
      match key with
      | .scalar (.integer nkey) =>
          (countsize sizearray entries).map fun n =>
            if 0 < nkey.toInt ∧ nkey.toInt ≤ sizearray then n else n + 1
      | .scalar (.number bits) => .error (.invalidKey bits)
      | .scalar (.string _) | .table _ _ => (countsize sizearray entries).map fun n => n + 1
      | other => .error (.error ("Invalid key type " ++ other.typename))

def calchashLoop (str : List UInt8) (step : Nat) : Nat → Nat → UInt32 → UInt32
  | 0, _, h => h
  | fuel + 1, l1, h =>
      if step ≤ l1 then
        calchashLoop str step fuel (l1 - step)
          (h ^^^ ((h <<< 5) + (h >>> 2) + (str.getD (l1 - 1) 0).toUInt32))
      else h

def calchash (str : List UInt8) : UInt32 :=
  calchashLoop str (str.length / 32 + 1) str.length str.length (UInt32.ofNat str.length)

def stringindex (ctx : Context) (str : List UInt8) : Context × Nat :=
  match ctx.strings.idxOf? str with
  | some i => (ctx, i + 2)
  | none => (⟨ctx.strings ++ [str]⟩, ctx.stringIndex + 1)

abbrev Convert := Context → Nat → Entries → Except Fault (Context × Table Value)

def setvalue (convtable : Convert) (ctx : Context) : LuaValue → Except Fault (Context × Value)
  | .scalar .nil => .ok (ctx, .nil)
  | .scalar (.integer d) => .ok (ctx, .integer d)
  | .scalar (.number bits) => .ok (ctx, .real bits)
  | .scalar (.string str) => .ok ((stringindex ctx str).1, .string (stringindex ctx str).2)
  | .scalar (.boolean b) => .ok (ctx, .boolean b)
  | .table rawlen entries => (convtable ctx rawlen entries).map fun made => (made.1, .table made.2)
  | other => .error (.error ("Unsupport value type " ++ other.typename))

def setarray (convtable : Convert) (made : Context × Table Value) (value : LuaValue) (key : Nat) :
    Except Fault (Context × Table Value) :=
  (setvalue convtable made.1 value).map fun set =>
    (set.1, { made.2 with array := made.2.array.set (key - 1) set.2 })

def integerKey (sizearray : Nat) (key : Int32) : Nat ⊕ Key × UInt32 :=
  if 0 < key.toInt ∧ key.toInt ≤ sizearray then .inl key.toInt.toNat
  else .inr (.integer key, key.toUInt32)

-- `lua_tolstring` of a table is an empty string. Floats do not pass `countsize`.
def ishashkey (ctx : Context) (sizearray : Nat) : LuaValue → Context × (Nat ⊕ Key × UInt32)
  | .scalar (.integer n) => (ctx, integerKey sizearray n.toInt32)
  | .scalar (.number bits) => (ctx, integerKey sizearray ((numisinteger bits).getD 0).toInt32)
  | .scalar (.string s) => ((stringindex ctx s).1, .inr (.string (stringindex ctx s).2, calchash s))
  | _ => ((stringindex ctx []).1, .inr (.string (stringindex ctx []).2, calchash []))

def placeNocolliding (convtable : Convert) (made : Context × Table Value)
    (entry : LuaValue × LuaValue) : Except Fault (Context × Table Value) :=
  match ishashkey made.1 made.2.array.length entry.1 with
  | (ctx, .inl key) => setarray convtable (ctx, made.2) entry.2 key
  | (ctx, .inr (key, keyhash)) =>
      match made.2.hash[mainpos made.2.hash keyhash.toNat]? with
      | some none =>
          (setvalue convtable ctx entry.2).map fun set =>
            (set.1, { made.2 with hash := putMain made.2.hash key keyhash.toNat set.2 })
      | _ => .ok (ctx, made.2)

def fillnocolliding (convtable : Convert) (made : Context × Table Value) (entries : Entries) :
    Except Fault (Context × Table Value) :=
  entries.foldlM (placeNocolliding convtable) made

def placeColliding (convtable : Convert) (made : Context × Table Value)
    (entry : LuaValue × LuaValue) : Except Fault (Context × Table Value) :=
  match ishashkey made.1 made.2.array.length entry.1 with
  | (ctx, .inl _) => .ok (ctx, made.2)
  | (ctx, .inr (key, keyhash)) =>
      match made.2.hash[mainpos made.2.hash keyhash.toNat]? with
      | some (some main) =>
          if main.key = key then .ok (ctx, made.2)
          else
            match made.2.hash.findIdx? Option.isNone with
            | some free =>
                (setvalue convtable ctx entry.2).map fun set =>
                  (set.1, { made.2 with
                    hash := putFree made.2.hash main free key keyhash.toNat set.2 })
            | none => .error .assertion
      | _ => .error .undefined

def fillcolliding (convtable : Convert) (made : Context × Table Value) (entries : Entries) :
    Except Fault (Context × Table Value) :=
  entries.foldlM (placeColliding convtable) made

def fillarray (convtable : Convert) (made : Context × Table Value) (sizearray : Nat)
    (entries : Entries) : Except Fault (Context × Table Value) :=
  (List.range sizearray).foldlM
    (fun made i => setarray convtable made (rawgeti entries (i + 1)) (i + 1)) made

-- `levels` calls of C may still be nested.
def convtable : Nat → Convert
  | 0, _, _, _ => .error (.error "C stack overflow")
  | levels + 1, ctx, sizearray, entries => do
      let sizehash ← countsize sizearray entries
      let tbl : Table Value :=
        { array := List.replicate sizearray .nil, hash := List.replicate sizehash none }
      if sizehash = 0 then fillarray (convtable levels) (ctx, tbl) sizearray entries
      else
        let made ← fillnocolliding (convtable levels) (ctx, tbl) entries
        fillcolliding (convtable levels) made entries

def maxStack : Nat := 1000000

-- The object that `host.new` returns. Sub-tables share the strings.
structure Conf where
  strings : List (List UInt8)
  root : Table Value

-- `pconv` has 3 slots of the stack of the new state, 5 more are reserved, and
-- `luaL_checkstack` asks for 20 more than it is told.
def newconf (levels : Nat) (sizearray : Nat) (entries : Entries) : Except Fault Conf := do
  let made ← convtable levels ⟨[]⟩ sizearray entries
  if maxStack < made.1.stringIndex + 3 + 20 + 8 then .error (.error "stack overflow")
  else .ok ⟨made.1.strings, made.2⟩

-- `lua_tolstring` in the state of the object.
def tolstring (strings : List (List UInt8)) (index : Nat) : List UInt8 :=
  strings.getD (index - 2) []

inductive Pushed where
  | scalar (value : Scalar)
  | table (table : Table Value)

def pushvalue (strings : List (List UInt8)) : Value → Pushed
  | .nil => .scalar .nil
  | .real bits => .scalar (.number bits)
  | .integer d => .scalar (.integer d)
  | .string index => .scalar (.string (tolstring strings index))
  | .boolean b => .scalar (.boolean b)
  | .table tbl => .table tbl

def pushkey (strings : List (List UInt8)) : Key → Scalar
  | .integer key => .integer key.toInt64
  | .string index => .string (tolstring strings index)

def sameKey (strings : List (List UInt8)) (probe : Int32 ⊕ List UInt8) : Key → Bool
  | .integer key =>
      match probe with
      | .inl other => key = other
      | .inr _ => false
  | .string index =>
      match probe with
      | .inl _ => false
      | .inr str => tolstring strings index = str

def lookupKey (strings : List (List UInt8)) (tbl : Table Value) (keyhash : UInt32)
    (probe : Int32 ⊕ List UInt8) : Option (Option Nat) :=
  find tbl.hash keyhash.toNat fun n => keyhash.toNat = n.hash && sameKey strings probe n.key

-- The value in the slot that `lookup_key` found.
def pushslot (strings : List (List UInt8)) (tbl : Table Value) :
    Option (Option Nat) → Except Fault Pushed
  | none => .error .undefined
  | some none => .ok (.scalar .nil)
  | some (some i) =>
      match tbl.hash[i]? with
      | some (some n) => .ok (pushvalue strings n.value)
      | _ => .error .undefined

def typearg : Scalar → String
  | .lightuserdata _ => "light userdata"
  | value => (LuaValue.scalar value).typename

def indexconf (strings : List (List UInt8)) (tbl : Table Value) : Scalar → Except Fault Pushed
  | .integer n =>
      let key := n.toInt32
      if 0 < key.toInt ∧ key.toInt ≤ tbl.array.length then
        .ok (pushvalue strings (tbl.array.getD (key.toInt.toNat - 1) .nil))
      else pushslot strings tbl (lookupKey strings tbl key.toUInt32 (.inl key))
  | .number bits => .error (.invalidKey bits)
  | .string str => pushslot strings tbl (lookupKey strings tbl (calchash str) (.inr str))
  | other =>
      .error (.error ("bad argument #2 to 'index' (string expected, got " ++ typearg other ++ ")"))

def Value.isNil : Value → Bool
  | .nil => true
  | _ => false

-- The first position from `i` on in the array that is not nil, as a key.
def nextarray (tbl : Table Value) (i : Nat) : Option Nat :=
  ((tbl.array.drop i).findIdx? fun value => !value.isNil).map fun at_ => i + at_ + 1

def pushslotkey (strings : List (List UInt8)) (tbl : Table Value) (i : Nat) :
    Except Fault (Option Scalar) :=
  match tbl.hash[i]? with
  | some (some n) => .ok (some (pushkey strings n.key))
  | some none => .error .undefined
  | none => .ok none

def pushfirsthash (strings : List (List UInt8)) (tbl : Table Value) : Except Fault (Option Scalar) :=
  pushslotkey strings tbl 0

def nextslot (strings : List (List UInt8)) (tbl : Table Value) :
    Option (Option Nat) → Except Fault (Option Scalar)
  | none => .error .undefined
  | some none => .ok none
  | some (some i) => pushslotkey strings tbl (i + 1)

def arraykey (strings : List (List UInt8)) (tbl : Table Value) (i : Nat) :
    Except Fault (Option Scalar) :=
  match nextarray tbl i with
  | some key => .ok (some (.integer (Int64.ofNat key)))
  | none => pushfirsthash strings tbl

def nextkey (strings : List (List UInt8)) (tbl : Table Value) :
    Scalar → Except Fault (Option Scalar)
  | .nil => arraykey strings tbl 0
  | .integer n =>
      let key := n.toInt32
      if 0 < key.toInt ∧ key.toInt ≤ tbl.array.length then arraykey strings tbl key.toInt.toNat
      else nextslot strings tbl (lookupKey strings tbl key.toUInt32 (.inl key))
  | .number _ => .ok none
  | .string str => nextslot strings tbl (lookupKey strings tbl (calchash str) (.inr str))
  | other =>
      .error (.error ("bad argument #2 to 'nextkey' (string expected, got " ++ typearg other ++ ")"))

def llen (tbl : Table Value) : Nat := tbl.array.length

-- A string map only gets longer, and never has a string twice.
def Grows (ctx after : Context) : Prop :=
  ctx.strings <+: after.strings ∧ (ctx.strings.Nodup → after.strings.Nodup)

theorem Grows.refl (ctx : Context) : Grows ctx ctx := ⟨List.prefix_rfl, id⟩

theorem Grows.trans {ctx next after : Context} (first : Grows ctx next) (second : Grows next after) :
    Grows ctx after :=
  ⟨first.1.trans second.1, fun nodup => second.2 (first.2 nodup)⟩

theorem stringindex_grows (ctx : Context) (str : List UInt8) : Grows ctx (stringindex ctx str).1 := by
  unfold stringindex
  cases found : ctx.strings.idxOf? str with
  | some i => exact .refl ctx
  | none =>
    refine ⟨List.prefix_append _ _, ?_⟩
    intro nodup
    refine nodup.append (List.nodup_singleton str) ?_
    rw [List.disjoint_singleton]
    exact List.idxOf?_eq_none_iff.mp found

theorem stringindex_value {ctx : Context} {str : List UInt8} {strings : List (List UInt8)}
    (later : (stringindex ctx str).1.strings <+: strings) :
    2 ≤ (stringindex ctx str).2 ∧ strings[(stringindex ctx str).2 - 2]? = some str := by
  revert later
  unfold stringindex
  cases found : ctx.strings.idxOf? str with
  | some i =>
    intro later
    obtain ⟨inside, value, _⟩ := List.idxOf?_eq_some_iff.mp found
    refine ⟨by simp, ?_⟩
    simp only [Nat.add_sub_cancel]
    rw [List.prefix_iff_getElem?.mp later i inside, value]
  | none =>
    intro later
    refine ⟨by simp [Context.stringIndex], ?_⟩
    have at_ := List.prefix_iff_getElem?.mp later ctx.strings.length (by simp)
    simpa [Context.stringIndex] using at_

def Growing (convert : Convert) : Prop :=
  ∀ ctx rawlen entries made, convert ctx rawlen entries = .ok made → Grows ctx made.1

variable {convert : Convert}

theorem setvalue_grows (growing : Growing convert) {ctx : Context} {value : LuaValue}
    {set : Context × Value} (ok : setvalue convert ctx value = .ok set) : Grows ctx set.1 := by
  cases value with
  | scalar value =>
    cases value with
    | string str =>
      cases ok
      exact stringindex_grows ctx str
    | lightuserdata address => cases ok
    | nil | boolean | integer | number =>
      cases ok
      exact .refl ctx
  | table rawlen entries =>
    obtain ⟨made, converted, rfl⟩ := map_ok.mp ok
    exact growing ctx rawlen entries made converted
  | other type => cases ok

theorem setarray_grows (growing : Growing convert) {made after : Context × Table Value}
    {value : LuaValue} {key : Nat} (ok : setarray convert made value key = .ok after) :
    Grows made.1 after.1 := by
  obtain ⟨set, converted, rfl⟩ := map_ok.mp ok
  exact setvalue_grows growing converted

theorem ishashkey_grows (ctx : Context) (sizearray : Nat) (key : LuaValue) :
    Grows ctx (ishashkey ctx sizearray key).1 := by
  cases key with
  | scalar key =>
    cases key with
    | integer | number => exact .refl ctx
    | string str => exact stringindex_grows ctx str
    | nil | boolean | lightuserdata => exact stringindex_grows ctx []
  | table | other => exact stringindex_grows ctx []

theorem placeNocolliding_grows (growing : Growing convert) {made after : Context × Table Value}
    {entry : LuaValue × LuaValue} (ok : placeNocolliding convert made entry = .ok after) :
    Grows made.1 after.1 := by
  have named := ishashkey_grows made.1 made.2.array.length entry.1
  unfold placeNocolliding at ok
  generalize ishashkey made.1 made.2.array.length entry.1 = found at ok named
  obtain ⟨ctx, key | ⟨key, keyhash⟩⟩ := found
  · exact named.trans (setarray_grows growing ok)
  · simp only at ok
    split at ok
    · obtain ⟨set, converted, rfl⟩ := map_ok.mp ok
      exact named.trans (setvalue_grows growing converted)
    · cases ok
      exact named

theorem placeColliding_grows (growing : Growing convert) {made after : Context × Table Value}
    {entry : LuaValue × LuaValue} (ok : placeColliding convert made entry = .ok after) :
    Grows made.1 after.1 := by
  have named := ishashkey_grows made.1 made.2.array.length entry.1
  unfold placeColliding at ok
  generalize ishashkey made.1 made.2.array.length entry.1 = found at ok named
  obtain ⟨ctx, key | ⟨key, keyhash⟩⟩ := found
  · cases ok
    exact named
  · simp only at ok
    split at ok
    · split_ifs at ok
      · cases ok
        exact named
      · split at ok
        · obtain ⟨set, converted, rfl⟩ := map_ok.mp ok
          exact named.trans (setvalue_grows growing converted)
        · cases ok
    · cases ok

def Before (made after : Context × Table Value) : Prop := Grows made.1 after.1

theorem Before.refl (made : Context × Table Value) : Before made made := Grows.refl made.1

theorem Before.trans (made next after : Context × Table Value) (first : Before made next)
    (second : Before next after) : Before made after :=
  Grows.trans first second

theorem convtable_grows (levels : Nat) : Growing (convtable levels) := by
  induction levels with
  | zero =>
    intro ctx rawlen entries made ok
    cases ok
  | succ levels ih =>
    intro ctx rawlen entries made ok
    simp only [convtable] at ok
    obtain ⟨sizehash, counted, ok⟩ := bind_ok.mp ok
    split_ifs at ok with empty
    · exact foldlM_moves Before.refl Before.trans
        (fun made i after ok => setarray_grows ih ok) _ _ _ ok
    · obtain ⟨first, filled, ok⟩ := bind_ok.mp ok
      have one : Before _ first := foldlM_moves Before.refl Before.trans
        (fun made entry after ok => placeNocolliding_grows ih ok) _ _ _ filled
      have two : Before first made := foldlM_moves Before.refl Before.trans
        (fun made entry after ok => placeColliding_grows ih ok) _ _ _ ok
      exact Grows.trans one two

end Pskynet.Sharedata
