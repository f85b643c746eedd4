import Pskynet.Sharedata.Table

set_option autoImplicit false

namespace Pskynet.Sharedata

open Lua ChainedHash Outcome

def IsKey : Scalar → Prop
  | .integer n => -2 ^ 31 ≤ n.toInt ∧ n.toInt < 2 ^ 31
  | .string _ => True
  | _ => False

def InArray (sizearray : Nat) : Scalar → Prop
  | .integer n => 0 < n.toInt ∧ n.toInt ≤ sizearray
  | _ => False

instance (sizearray : Nat) : (key : Scalar) → Decidable (InArray sizearray key)
  | .integer _ => inferInstanceAs (Decidable (_ ∧ _))
  | .nil | .boolean _ | .number _ | .string _ | .lightuserdata _ => .isFalse id

def hashKey : Scalar → UInt32
  | .integer n => n.toInt32.toUInt32
  | .string str => calchash str
  | _ => 0

def Valid (strings : List (List UInt8)) : Key → Prop
  | .integer _ => True
  | .string index => 2 ≤ index ∧ index - 2 < strings.length

def entry (pair : Scalar × LuaValue) : LuaValue × LuaValue := (.scalar pair.1, pair.2)

variable {strings : List (List UInt8)} {sizearray : Nat} {name : Scalar}

theorem toInt32_toInt {n : Int64} (low : -2 ^ 31 ≤ n.toInt) (high : n.toInt < 2 ^ 31) :
    n.toInt32.toInt = n.toInt := by
  rw [Int64.toInt_toInt32]
  exact Int.bmod_eq_of_le (by omega) (by omega)

theorem toInt64_toInt32 {n : Int64} (low : -2 ^ 31 ≤ n.toInt) (high : n.toInt < 2 ^ 31) :
    n.toInt32.toInt64 = n := by
  rw [← Int64.toInt_inj, Int32.toInt_toInt64]
  exact toInt32_toInt low high

theorem toInt_ofNat {n : Nat} (fits : n < 2 ^ 31) : (Int64.ofNat n).toInt = n :=
  Int64.toInt_ofNat_of_lt (by omega)

theorem tolstring_valid {index : Nat} {str : List UInt8} (at_ : strings[index - 2]? = some str) :
    tolstring strings index = str := by
  rw [tolstring, List.getD_eq_getElem?_getD, at_, Option.getD_some]

theorem pushkey_inj (nodup : strings.Nodup) {a b : Key} (one : Valid strings a)
    (two : Valid strings b) (same : pushkey strings a = pushkey strings b) : a = b := by
  cases a with
  | integer a =>
    cases b with
    | integer b =>
      simp only [pushkey, Scalar.integer.injEq, ← Int64.toInt_inj, Int32.toInt_toInt64,
        Int32.toInt_inj] at same
      rw [same]
    | string b => cases same
  | string a =>
    cases b with
    | integer b => cases same
    | string b =>
      obtain ⟨lowA, highA⟩ := one
      obtain ⟨lowB, highB⟩ := two
      simp only [pushkey, Scalar.string.injEq, tolstring, List.getD_eq_getElem?_getD,
        List.getElem?_eq_getElem highA, List.getElem?_eq_getElem highB, Option.getD_some] at same
      have equal := nodup.getElem_inj_iff.mp same
      rw [show a = b by omega]

theorem ishashkey_array (ctx : Context) (is : IsKey name) (inside : InArray sizearray name) :
    ∃ n : Int64, name = .integer n ∧ 0 < n.toInt ∧ n.toInt ≤ sizearray ∧
      ishashkey ctx sizearray (.scalar name) = (ctx, .inl n.toInt.toNat) := by
  cases name with
  | integer n =>
    refine ⟨n, rfl, inside.1, inside.2, ?_⟩
    have narrow := toInt32_toInt is.1 is.2
    have range : 0 < n.toInt ∧ n.toInt ≤ sizearray := inside
    simp only [ishashkey, integerKey, narrow]
    rw [if_pos range]
  | nil | boolean | number | string | lightuserdata => exact inside.elim

theorem ishashkey_hash (ctx : Context) (is : IsKey name) (outside : ¬InArray sizearray name) :
    ∃ ctx' key, ishashkey ctx sizearray (.scalar name) = (ctx', .inr (key, hashKey name)) ∧
      ∀ strings, ctx'.strings <+: strings → Valid strings key ∧ pushkey strings key = name := by
  cases name with
  | integer n =>
    have narrow := toInt32_toInt is.1 is.2
    refine ⟨ctx, .integer n.toInt32, ?_, ?_⟩
    · have range : ¬(0 < n.toInt ∧ n.toInt ≤ sizearray) := outside
      simp only [ishashkey, integerKey, narrow]
      rw [if_neg range]
      rfl
    · intro strings _
      exact ⟨trivial, congrArg Scalar.integer (toInt64_toInt32 is.1 is.2)⟩
  | string str =>
    refine ⟨(stringindex ctx str).1, .string (stringindex ctx str).2, rfl, ?_⟩
    intro strings later
    obtain ⟨low, at_⟩ := stringindex_value later
    refine ⟨⟨low, (List.getElem?_eq_some_iff.mp at_).1⟩, ?_⟩
    exact congrArg Scalar.string (tolstring_valid at_)
  | nil | boolean | number | lightuserdata => exact is.elim

-- The tables that can be shared: keys are distinct, and the border, a key itself, is an `int`.
structure Plain (sizearray : Nat) (pairs : List (Scalar × LuaValue)) : Prop where
  keys : ∀ pair ∈ pairs, IsKey pair.1
  nodup : (pairs.map Prod.fst).Nodup
  values : ∀ pair ∈ pairs, pair.2 ≠ nil
  border : sizearray < 2 ^ 31

def hashKeys (sizearray : Nat) (pairs : List (Scalar × LuaValue)) : List Scalar :=
  (pairs.map Prod.fst).filter fun name => ¬InArray sizearray name

theorem countsize_eq {pairs : List (Scalar × LuaValue)} (keys : ∀ pair ∈ pairs, IsKey pair.1) :
    countsize sizearray (pairs.map entry) = .ok (hashKeys sizearray pairs).length := by
  induction pairs with
  | nil => rfl
  | cons pair rest ih =>
    obtain ⟨name, value⟩ := pair
    have later := ih fun pair inside => keys pair (List.mem_cons_of_mem _ inside)
    have is := keys (name, value) List.mem_cons_self
    cases name with
    | integer n =>
      simp only [List.map_cons, entry, countsize]
      change (countsize sizearray (rest.map entry)).map _ = _
      rw [later]
      simp only [hashKeys, Except.map, List.map_cons, List.filter_cons, InArray]
      split_ifs with inside <;> simp_all
    | string str =>
      simp only [List.map_cons, entry, countsize]
      change (countsize sizearray (rest.map entry)).map _ = _
      rw [later]
      simp [hashKeys, Except.map, InArray]
    | nil | boolean | number | lightuserdata => exact is.elim

-- `value` came out of `v` when the string map was a part of `strings`.
def Converted (levels : Nat) (strings : List (List UInt8)) (v : LuaValue) (value : Value) : Prop :=
  ∃ ctx after, ctx.strings.Nodup ∧ setvalue (convtable levels) ctx v = .ok (after, value) ∧
    after.strings <+: strings

theorem converted_nil (levels : Nat) (strings : List (List UInt8)) :
    Converted levels strings Lua.nil .nil :=
  ⟨⟨[]⟩, ⟨[]⟩, List.nodup_nil, rfl, List.nil_prefix⟩

structure Stored (levels : Nat) (strings : List (List UInt8)) (sizearray : Nat)
    (done : List (Scalar × LuaValue)) (item : Key × Nat × Value) : Prop where
  valid : Valid strings item.1
  hash : item.2.1 = (hashKey (pushkey strings item.1)).toNat
  outside : ¬InArray sizearray (pushkey strings item.1)
  value : ∃ v, (pushkey strings item.1, v) ∈ done ∧ Converted levels strings v item.2.2

def ArrayFilled (levels : Nat) (strings : List (List UInt8)) (sizearray : Nat)
    (done : List (Scalar × LuaValue)) (array : List Value) : Prop :=
  array.length = sizearray ∧ ∀ i < sizearray,
    Converted levels strings (rawget (done.map entry) (.integer (Int64.ofNat (i + 1))))
      (array.getD i .nil)

structure First (levels : Nat) (strings : List (List UInt8)) (sizearray size : Nat)
    (done : List (Scalar × LuaValue)) (made : Context × Table Value) : Prop where
  once : made.1.strings.Nodup
  array : ArrayFilled levels strings sizearray done made.2.array
  size : made.2.hash.length = size
  lonely : Lonely made.2.hash
  stored : ∀ item ∈ items made.2.hash, Stored levels strings sizearray done item
  distinct : ((items made.2.hash).map fun item => pushkey strings item.1).Nodup
  mains : ∀ name ∈ hashKeys sizearray done,
    ∃ main, Filled made.2.hash (mainpos made.2.hash (hashKey name).toNat) main

variable {levels size : Nat} {done rest : List (Scalar × LuaValue)} {v : LuaValue} {value : Value}
  {array : List Value}

theorem Stored.more {item : Key × Nat × Value} (stored : Stored levels strings sizearray done item)
    (more : List (Scalar × LuaValue)) : Stored levels strings sizearray (done ++ more) item := by
  obtain ⟨v, inside, converted⟩ := stored.value
  exact ⟨stored.valid, stored.hash, stored.outside, v, List.mem_append_left _ inside, converted⟩

theorem rawget_entry_append (done : List (Scalar × LuaValue)) (name key : Scalar) (v : LuaValue)
    (fresh : name ∉ done.map Prod.fst) :
    rawget ((done ++ [(name, v)]).map entry) key =
      if key = name then v else rawget (done.map entry) key := by
  rw [List.map_append]
  refine rawget_append _ name key v ?_
  intro other inside same
  obtain ⟨pair, member, rfl⟩ := List.mem_map.mp inside
  simp only [entry, LuaValue.scalar.injEq] at same
  exact fresh (same ▸ List.mem_map_of_mem member)

theorem ArrayFilled.set (filled : ArrayFilled levels strings sizearray done array)
    (narrow : sizearray < 2 ^ 31) {n : Int64} (low : 0 < n.toInt) (high : n.toInt ≤ sizearray)
    (fresh : .integer n ∉ done.map Prod.fst) (converted : Converted levels strings v value) :
    ArrayFilled levels strings sizearray (done ++ [(.integer n, v)])
      (array.set (n.toInt.toNat - 1) value) := by
  obtain ⟨length, old⟩ := filled
  refine ⟨by simpa using length, ?_⟩
  intro i inside
  rw [rawget_entry_append done _ _ v fresh, List.getD_eq_getElem?_getD, List.getElem?_set]
  have at_ := toInt_ofNat (n := i + 1) (by omega)
  by_cases here : n.toInt.toNat - 1 = i
  · have same : Int64.ofNat (i + 1) = n := by
      rw [← Int64.toInt_inj, at_]
      omega
    rw [if_pos (congrArg Scalar.integer same), if_pos here, if_pos (by omega), Option.getD_some]
    exact converted
  · have other : Int64.ofNat (i + 1) ≠ n := by
      rw [ne_eq, ← Int64.toInt_inj, at_]
      omega
    rw [if_neg (fun same => other (Scalar.integer.inj same)), if_neg here,
      ← List.getD_eq_getElem?_getD]
    exact old i inside

theorem ArrayFilled.skip (filled : ArrayFilled levels strings sizearray done array)
    (narrow : sizearray < 2 ^ 31) (outside : ¬InArray sizearray name)
    (fresh : name ∉ done.map Prod.fst) :
    ArrayFilled levels strings sizearray (done ++ [(name, v)]) array := by
  refine ⟨filled.1, ?_⟩
  intro i inside
  rw [rawget_entry_append done _ _ v fresh, if_neg]
  · exact filled.2 i inside
  · intro same
    have at_ := toInt_ofNat (n := i + 1) (by omega)
    refine outside (same ▸ ⟨?_, ?_⟩)
    · omega
    · omega

theorem ArrayFilled.replicate (levels : Nat) (strings : List (List UInt8)) (sizearray : Nat) :
    ArrayFilled levels strings sizearray [] (List.replicate sizearray .nil) := by
  refine ⟨List.length_replicate, ?_⟩
  intro i inside
  rw [List.getD_eq_getElem?_getD, List.getElem?_replicate_of_lt inside, Option.getD_some]
  exact converted_nil levels strings

theorem mem_hashKeys {pairs : List (Scalar × LuaValue)} :
    name ∈ hashKeys sizearray pairs ↔ name ∈ pairs.map Prod.fst ∧ ¬InArray sizearray name := by
  simp [hashKeys]

theorem hashKeys_append (done more : List (Scalar × LuaValue)) :
    hashKeys sizearray (done ++ more) = hashKeys sizearray done ++ hashKeys sizearray more := by
  simp [hashKeys]

theorem fresh_item {slots : Slots Key Value}
    (stored : ∀ item ∈ items slots, Stored levels strings sizearray done item)
    (fresh : name ∉ done.map Prod.fst) :
    name ∉ (items slots).map fun item => pushkey strings item.1 := by
  intro inside
  obtain ⟨item, member, same⟩ := List.mem_map.mp inside
  obtain ⟨v, there, _⟩ := (stored item member).value
  exact fresh (same ▸ List.mem_map_of_mem there)

section FirstPass

variable {made after : Context × Table Value} {pair : Scalar × LuaValue}

theorem First.array_step (first : First levels strings sizearray size done made)
    (narrow : sizearray < 2 ^ 31) (is : IsKey pair.1) (fresh : pair.1 ∉ done.map Prod.fst)
    (inside : InArray sizearray pair.1)
    (ok : placeNocolliding (convtable levels) made (entry pair) = .ok after)
    (ahead : after.1.strings <+: strings) :
    First levels strings sizearray size (done ++ [pair]) after := by
  obtain ⟨name, v⟩ := pair
  obtain ⟨n, named, low, high, found⟩ := ishashkey_array made.1 is inside
  subst named
  simp only [placeNocolliding, entry, first.array.1, found] at ok
  obtain ⟨⟨ctx, value⟩, converted, rfl⟩ := map_ok.mp ok
  refine ⟨(setvalue_grows (convtable_grows levels) converted).2 first.once, ?_, first.size,
    first.lonely, fun item inside => (first.stored item inside).more _, first.distinct, ?_⟩
  · exact first.array.set narrow low high fresh ⟨made.1, ctx, first.once, converted, ahead⟩
  · intro name member
    rw [hashKeys_append, List.mem_append] at member
    rcases member with old | new_
    · exact first.mains name old
    · rw [mem_hashKeys, List.map_singleton, List.mem_singleton] at new_
      exact absurd (new_.1 ▸ inside) new_.2

theorem First.hash_step (first : First levels strings sizearray size done made)
    (narrow : sizearray < 2 ^ 31) (is : IsKey pair.1) (fresh : pair.1 ∉ done.map Prod.fst)
    (outside : ¬InArray sizearray pair.1) (room : 0 < size)
    (ok : placeNocolliding (convtable levels) made (entry pair) = .ok after)
    (ahead : after.1.strings <+: strings) :
    First levels strings sizearray size (done ++ [pair]) after := by
  obtain ⟨name, v⟩ := pair
  obtain ⟨ctx, key, found, known⟩ := ishashkey_hash made.1 is outside
  have named : Grows made.1 ctx := by
    have grows := ishashkey_grows made.1 sizearray (.scalar name)
    rwa [found] at grows
  have small : mainpos made.2.hash (hashKey name).toNat < made.2.hash.length :=
    mainpos_lt (by rw [first.size]; exact room) _
  simp only [placeNocolliding, entry, first.array.1, found] at ok
  cases at_ : made.2.hash[mainpos made.2.hash (hashKey name).toNat]? with
  | none =>
    rw [List.getElem?_eq_none_iff] at at_
    omega
  | some slot =>
    cases slot with
    | none =>
      rw [at_] at ok
      obtain ⟨⟨last, value⟩, converted, rfl⟩ := map_ok.mp ok
      have grows := setvalue_grows (convtable_grows levels) converted
      obtain ⟨valid, names⟩ := known strings (grows.1.trans ahead)
      have all : (items (putMain made.2.hash key (hashKey name).toNat value)).Perm
          ((key, (hashKey name).toNat, value) :: items made.2.hash) := items_putMain at_
      refine ⟨grows.2 (named.2 first.once), first.array.skip narrow outside fresh, ?_,
        first.lonely.putMain _ _ _, ?_, ?_, ?_⟩
      · rw [← first.size]
        exact List.length_set
      · intro item member
        rcases List.mem_cons.mp (all.mem_iff.mp member) with new_ | old
        · subst new_
          refine ⟨valid, ?_, ?_, v, ?_, ctx, last, named.2 first.once, converted, ahead⟩
          · rw [names]
          · rwa [names]
          · rw [names]
            exact List.mem_append_right _ (List.mem_singleton_self _)
        · exact (first.stored item old).more _
      · have perm := (all.map fun item => pushkey strings item.1).nodup_iff
        refine perm.mpr ?_
        rw [List.map_cons, List.nodup_cons, names]
        exact ⟨fresh_item first.stored fresh, first.distinct⟩
      · intro other member
        simp only [mainpos_putMain]
        rw [hashKeys_append, List.mem_append] at member
        rcases member with old | new_
        · obtain ⟨main, filled⟩ := first.mains other old
          exact ⟨main, putMain_filled at_ filled⟩
        · rw [mem_hashKeys, List.map_singleton, List.mem_singleton] at new_
          rw [new_.1]
          exact putMain_filled_main small
    | some main =>
      rw [at_] at ok
      cases ok
      refine ⟨named.2 first.once, first.array.skip narrow outside fresh, first.size, first.lonely,
        fun item inside => (first.stored item inside).more _, first.distinct, ?_⟩
      intro other member
      rw [hashKeys_append, List.mem_append] at member
      rcases member with old | new_
      · exact first.mains other old
      · rw [mem_hashKeys, List.map_singleton, List.mem_singleton] at new_
        rw [new_.1]
        exact ⟨main, at_⟩

end FirstPass

structure Second (levels : Nat) (strings : List (List UInt8)) (sizearray : Nat)
    (all done : List (Scalar × LuaValue)) (made : Context × Table Value) : Prop where
  once : made.1.strings.Nodup
  array : ArrayFilled levels strings sizearray all made.2.array
  size : made.2.hash.length = (hashKeys sizearray all).length
  chained : Chained made.2.hash
  stored : ∀ item ∈ items made.2.hash, Stored levels strings sizearray all item
  distinct : ((items made.2.hash).map fun item => pushkey strings item.1).Nodup
  mains : ∀ name ∈ hashKeys sizearray all,
    ∃ main, Filled made.2.hash (mainpos made.2.hash (hashKey name).toNat) main ∧
      mainpos made.2.hash main.hash = mainpos made.2.hash (hashKey name).toNat
  early : ∀ i slot, Filled made.2.hash i slot →
    mainpos made.2.hash slot.hash = i ∨ pushkey strings slot.key ∈ done.map Prod.fst
  placed : ∀ name ∈ hashKeys sizearray done,
    name ∈ (items made.2.hash).map fun item => pushkey strings item.1

section SecondPass

variable {all : List (Scalar × LuaValue)} {made after : Context × Table Value}
  {pair : Scalar × LuaValue}

theorem First.second
    (first : First levels strings sizearray (hashKeys sizearray all).length all made) :
    Second levels strings sizearray all [] made :=
  { first with
    chained := first.lonely.chained
    mains := by
      intro name member
      obtain ⟨main, filled⟩ := first.mains name member
      exact ⟨main, filled, (first.lonely _ main filled).1⟩
    early := fun i slot filled => .inl (first.lonely i slot filled).1
    placed := by
      intro name member
      cases member }

theorem names_subset {slots : Slots Key Value}
    (stored : ∀ item ∈ items slots, Stored levels strings sizearray all item) :
    ((items slots).map fun item => pushkey strings item.1) ⊆ hashKeys sizearray all := by
  intro name inside
  obtain ⟨item, member, same⟩ := List.mem_map.mp inside
  have is := stored item member
  obtain ⟨v, there, _⟩ := is.value
  rw [← same, mem_hashKeys]
  exact ⟨List.mem_map_of_mem there, is.outside⟩

theorem Second.known_step (second : Second levels strings sizearray all done made)
    {ctx : Context} (grows : Grows made.1 ctx)
    (known : ∀ name ∈ hashKeys sizearray [pair],
      name ∈ (items made.2.hash).map fun item => pushkey strings item.1) :
    Second levels strings sizearray all (done ++ [pair]) (ctx, made.2) :=
  { second with
    once := grows.2 second.once
    early := by
      intro i slot filled
      rw [List.map_append, List.mem_append]
      exact (second.early i slot filled).imp id .inl
    placed := by
      intro name member
      rw [hashKeys_append, List.mem_append] at member
      exact member.elim (second.placed name) (known name) }

theorem Second.absent (second : Second levels strings sizearray all done made)
    (once : strings.Nodup) {key : Key} (valid : Valid strings key)
    (fresh : pushkey strings key ∉ done.map Prod.fst) {main : Slot Key Value}
    (filled : Filled made.2.hash
      (mainpos made.2.hash (hashKey (pushkey strings key)).toNat) main)
    (other : main.key ≠ key) :
    pushkey strings key ∉ (items made.2.hash).map fun item => pushkey strings item.1 := by
  intro inside
  obtain ⟨item, member, same⟩ := List.mem_map.mp inside
  have is := second.stored item member
  have equal := pushkey_inj once is.valid valid same
  obtain ⟨i, slot, there, rfl⟩ := mem_items.mp member
  have named : slot.key = key := equal
  rcases second.early i slot there with main_ | processed
  · have hash : slot.hash = (hashKey (pushkey strings slot.key)).toNat := is.hash
    rw [hash, named] at main_
    rw [main_] at filled
    exact other ((there.unique filled) ▸ named)
  · exact fresh (named ▸ processed)

theorem Second.place_step (second : Second levels strings sizearray all done made)
    {ctx : Context} (grows : Grows made.1 ctx) {v : LuaValue} {key : Key}
    (valid : Valid strings key) (member : (pushkey strings key, v) ∈ all)
    (outside : ¬InArray sizearray (pushkey strings key))
    (absent : pushkey strings key ∉ (items made.2.hash).map fun item => pushkey strings item.1)
    {main : Slot Key Value}
    (filled : Filled made.2.hash
      (mainpos made.2.hash (hashKey (pushkey strings key)).toNat) main)
    (belongs : mainpos made.2.hash main.hash =
      mainpos made.2.hash (hashKey (pushkey strings key)).toNat)
    {free : Nat} (vacant : made.2.hash[free]? = some none) {value : Value}
    (converted : Converted levels strings v value) :
    Second levels strings sizearray all (done ++ [(pushkey strings key, v)])
      (ctx, { made.2 with
        hash := putFree made.2.hash main free key (hashKey (pushkey strings key)).toNat value }) := by
  have more : (items (putFree made.2.hash main free key
      (hashKey (pushkey strings key)).toNat value)).Perm
      ((key, (hashKey (pushkey strings key)).toNat, value) :: items made.2.hash) :=
    items_putFree filled vacant
  have names := more.map fun item => pushkey strings item.1
  refine ⟨grows.2 second.once, second.array, ?_, second.chained.putFree filled belongs vacant,
    ?_, ?_, ?_, ?_, ?_⟩
  · rw [← second.size]
    simp [putFree]
  · intro item inside
    rcases List.mem_cons.mp (more.mem_iff.mp inside) with new_ | old
    · rw [new_]
      exact ⟨valid, rfl, outside, v, member, converted⟩
    · exact second.stored item old
  · refine names.nodup_iff.mpr ?_
    rw [List.map_cons, List.nodup_cons]
    exact ⟨absent, second.distinct⟩
  · intro name inside
    simp only [mainpos_putFree]
    obtain ⟨other, there, same⟩ := second.mains name inside
    by_cases here : mainpos made.2.hash (hashKey name).toNat =
        mainpos made.2.hash (hashKey (pushkey strings key)).toNat
    · exact ⟨_, (filled_putFree filled vacant).mpr (.inr (.inl ⟨here, rfl⟩)), belongs.trans here.symm⟩
    · refine ⟨other, (filled_putFree filled vacant).mpr (.inr (.inr ⟨?_, here, there⟩)), same⟩
      intro at_
      rw [at_] at there
      cases vacant.symm.trans there
  · intro i slot there
    simp only [mainpos_putFree]
    rw [List.map_append, List.mem_append]
    rcases (filled_putFree filled vacant).mp there with ⟨_, is⟩ | ⟨here, is⟩ | ⟨_, _, old⟩
    · rw [is]
      exact .inr (.inr (List.mem_singleton_self _))
    · rw [is, here]
      exact .inl belongs
    · exact (second.early i slot old).imp id .inl
  · intro name inside
    rw [names.mem_iff, List.map_cons, List.mem_cons]
    rw [hashKeys_append, List.mem_append] at inside
    rcases inside with old | new_
    · exact .inr (second.placed name old)
    · rw [mem_hashKeys, List.map_singleton, List.mem_singleton] at new_
      exact .inl new_.1

theorem Second.step (second : Second levels strings sizearray all done made)
    (once : strings.Nodup) (plain : Plain sizearray all) (split : all = done ++ pair :: rest)
    (ok : placeColliding (convtable levels) made (entry pair) = .ok after)
    (ahead : after.1.strings <+: strings) :
    Second levels strings sizearray all (done ++ [pair]) after := by
  obtain ⟨name, v⟩ := pair
  have member : (name, v) ∈ all := by simp [split]
  have is := plain.keys (name, v) member
  have fresh : name ∉ done.map Prod.fst := by
    have nodup := plain.nodup
    rw [split, List.map_append, List.map_cons, List.nodup_append] at nodup
    exact fun inside => nodup.2.2 name inside name List.mem_cons_self rfl
  by_cases inside : InArray sizearray name
  · obtain ⟨n, named, _, _, found⟩ := ishashkey_array made.1 is inside
    subst named
    simp only [placeColliding, entry, second.array.1, found] at ok
    cases ok
    refine second.known_step (.refl _) ?_
    intro other new_
    rw [mem_hashKeys, List.map_singleton, List.mem_singleton] at new_
    exact absurd (new_.1 ▸ inside) new_.2
  · obtain ⟨ctx, key, found, known⟩ := ishashkey_hash made.1 is inside
    have grows : Grows made.1 ctx := by
      have grows := ishashkey_grows made.1 sizearray (.scalar name)
      rwa [found] at grows
    have part : name ∈ hashKeys sizearray all :=
      mem_hashKeys.mpr ⟨List.mem_map_of_mem member, inside⟩
    obtain ⟨main, filled, belongs⟩ := second.mains name part
    have at_ : made.2.hash[mainpos made.2.hash (hashKey name).toNat]? = some (some main) := filled
    simp only [placeColliding, entry, second.array.1, found, at_] at ok
    split_ifs at ok with same
    · cases ok
      obtain ⟨_, names⟩ := known strings ahead
      refine second.known_step grows ?_
      intro other new_
      rw [mem_hashKeys, List.map_singleton, List.mem_singleton] at new_
      rw [new_.1, List.mem_map]
      refine ⟨main.item, mem_items.mpr ⟨_, main, filled, rfl⟩, ?_⟩
      rw [← names, ← same]
      rfl
    · cases vacant : made.2.hash.findIdx? Option.isNone with
      | none =>
        rw [vacant] at ok
        cases ok
      | some free =>
        rw [vacant] at ok
        obtain ⟨⟨last, value⟩, converted, rfl⟩ := map_ok.mp ok
        have later := setvalue_grows (convtable_grows levels) converted
        obtain ⟨valid, names⟩ := known strings (later.1.trans ahead)
        subst names
        obtain ⟨low, empty, _⟩ := List.findIdx?_eq_some_iff_getElem.mp vacant
        have free_ : made.2.hash[free]? = some none := by
          rw [List.getElem?_eq_getElem low]
          exact congrArg some (Option.isNone_iff_eq_none.mp empty)
        exact second.place_step (grows.trans later) valid member inside
          (second.absent once valid fresh filled same) filled belongs free_
          ⟨ctx, last, grows.2 second.once, converted, ahead⟩

end SecondPass

structure Built (levels : Nat) (strings : List (List UInt8)) (sizearray : Nat)
    (all : List (Scalar × LuaValue)) (tbl : Table Value) : Prop where
  array : ArrayFilled levels strings sizearray all tbl.array
  chained : Chained tbl.hash
  stored : ∀ item ∈ items tbl.hash, Stored levels strings sizearray all item
  names : ((items tbl.hash).map fun item => pushkey strings item.1).Perm (hashKeys sizearray all)
  full : (items tbl.hash).length = tbl.hash.length

theorem Second.built {all : List (Scalar × LuaValue)} {made : Context × Table Value}
    (second : Second levels strings sizearray all all made) (plain : Plain sizearray all) :
    Built levels strings sizearray all made.2 := by
  have nodup : (hashKeys sizearray all).Nodup := plain.nodup.filter _
  have names : ((items made.2.hash).map fun item => pushkey strings item.1).Perm
      (hashKeys sizearray all) := by
    rw [List.perm_ext_iff_of_nodup second.distinct nodup]
    exact fun name => ⟨fun inside => names_subset second.stored inside, second.placed name⟩
  refine ⟨second.array, second.chained, second.stored, names, ?_⟩
  have length := names.length_eq
  rw [List.length_map] at length
  rw [length, second.size]

theorem fillarray_filled {all : List (Scalar × LuaValue)} {made after : Context × Table Value}
    (once : made.1.strings.Nodup) (length : made.2.array.length = sizearray)
    (ok : fillarray (convtable levels) made sizearray (all.map entry) = .ok after)
    (ahead : after.1.strings <+: strings) :
    ArrayFilled levels strings sizearray all after.2.array ∧ after.2.hash = made.2.hash := by
  have grows := convtable_grows levels
  have kept := foldlM_invariant Before.refl Before.trans
    (fun made i after ok => setarray_grows grows ok)
    (fun done now => now.1.strings.Nodup ∧ now.2.array.length = sizearray ∧
      now.2.hash = made.2.hash ∧ ∀ i ∈ done, i < sizearray →
        Converted levels strings (rawgeti (all.map entry) (i + 1)) (now.2.array.getD i .nil))
    (List.range sizearray) made after ok ⟨once, length, rfl, fun i inside => by cases inside⟩ ?_
  · obtain ⟨_, length, hash, all_⟩ := kept
    exact ⟨⟨length, fun i inside => all_ i (List.mem_range.mpr inside) inside⟩, hash⟩
  · rintro done i rest now next _ ⟨once, length, hash, set⟩ ok later
    obtain ⟨⟨ctx, value⟩, converted, rfl⟩ := map_ok.mp ok
    refine ⟨(setvalue_grows grows converted).2 once, by simpa using length, hash, ?_⟩
    intro j inside small
    simp only [Nat.add_sub_cancel]
    rw [List.getD_eq_getElem?_getD, List.getElem?_set]
    by_cases here : i = j
    · subst here
      rw [if_pos rfl, if_pos (by omega), Option.getD_some]
      exact ⟨now.1, ctx, once, converted, later.1.trans ahead⟩
    · rw [if_neg here, ← List.getD_eq_getElem?_getD]
      rcases List.mem_append.mp inside with old | new_
      · exact set j old small
      · exact absurd (List.mem_singleton.mp new_).symm here

theorem convtable_built {all : List (Scalar × LuaValue)} {ctx : Context}
    {made : Context × Table Value} (plain : Plain sizearray all) (start : ctx.strings.Nodup)
    (ok : convtable (levels + 1) ctx sizearray (all.map entry) = .ok made)
    (once : strings.Nodup) (ahead : made.1.strings <+: strings) :
    Built levels strings sizearray all made.2 := by
  have grows := convtable_grows levels
  simp only [convtable] at ok
  obtain ⟨size, counted, ok⟩ := bind_ok.mp ok
  have same := (countsize_eq plain.keys).symm.trans counted
  cases same
  split_ifs at ok with empty
  · obtain ⟨array, hash⟩ := fillarray_filled start List.length_replicate ok ahead
    have none_ : made.2.hash = [] := by
      rw [hash, empty]
      rfl
    have noItem : items made.2.hash = [] := by
      rw [none_]
      rfl
    refine ⟨array, ?_, ?_, ?_, ?_⟩
    · rw [none_]
      exact (lonely_replicate 0).chained
    · rw [noItem]
      intro item inside
      cases inside
    · rw [noItem, List.length_eq_zero_iff.mp empty]
      exact .refl _
    · rw [noItem, none_]
      rfl
  · obtain ⟨one, filled, ok⟩ := bind_ok.mp ok
    have later : Before one made := foldlM_moves Before.refl Before.trans
      (fun made entry after ok => placeColliding_grows grows ok) _ _ _ ok
    have passed : First levels strings sizearray (hashKeys sizearray all).length all one := by
      rw [fillnocolliding, List.foldlM_map] at filled
      refine foldlM_invariant Before.refl Before.trans
        (fun made pair after ok => placeNocolliding_grows grows ok)
        (First levels strings sizearray (hashKeys sizearray all).length) all _ one filled ?_ ?_
      · refine ⟨start, .replicate levels strings sizearray, List.length_replicate,
          lonely_replicate _, ?_, ?_, ?_⟩
        · intro item inside
          simp [items, List.reduceOption_replicate_none] at inside
        · simp [items, List.reduceOption_replicate_none]
        · intro name inside
          cases inside
      · intro done pair rest now next split first ok before
        have member : pair ∈ all := by simp [split]
        have fresh : pair.1 ∉ done.map Prod.fst := by
          have nodup := plain.nodup
          rw [split, List.map_append, List.map_cons, List.nodup_append] at nodup
          exact fun inside => nodup.2.2 _ inside _ List.mem_cons_self rfl
        have reached : next.1.strings <+: strings := (before.1.trans later.1).trans ahead
        by_cases inside : InArray sizearray pair.1
        · exact first.array_step plain.border (plain.keys pair member) fresh inside ok reached
        · exact first.hash_step plain.border (plain.keys pair member) fresh inside
            (Nat.pos_of_ne_zero empty) ok reached
    have both : Second levels strings sizearray all all made := by
      rw [fillcolliding, List.foldlM_map] at ok
      refine foldlM_invariant Before.refl Before.trans
        (fun made pair after ok => placeColliding_grows grows ok)
        (Second levels strings sizearray all) all one made ok passed.second ?_
      intro done pair rest now next split second ok before
      exact second.step once plain split ok (before.1.trans ahead)
    exact both.built plain

end Pskynet.Sharedata
