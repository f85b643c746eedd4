import Pskynet.Sharedata.Filling

set_option autoImplicit false

namespace Pskynet.Sharedata

open Lua ChainedHash Outcome

def Shows (pushed : Except Fault Pushed) : LuaValue → Prop
  | .scalar value => pushed = .ok (.scalar value)
  | .table _ _ => ∃ tbl, pushed = .ok (.table tbl)
  | .other _ => False

-- The keys that are visited from the one in `result` on, if no more than `fuel` come.
def visit (strings : List (List UInt8)) (tbl : Table Value) :
    Nat → Except Fault (Option Scalar) → Option (List Scalar)
  | _, .ok none => some []
  | fuel + 1, .ok (some key) =>
      (visit strings tbl fuel (nextkey strings tbl key)).map fun keys => key :: keys
  | 0, .ok (some _) | _, .error _ => none

structure ReadsBack (strings : List (List UInt8)) (tbl : Table Value) (sizearray : Nat)
    (entries : Entries) : Prop where
  index : ∀ key, IsKey key → Shows (indexconf strings tbl key) (rawget entries key)
  len : llen tbl = sizearray
  iterate : ∃ keys, visit strings tbl entries.length (nextkey strings tbl .nil) = some keys ∧
    (keys.map LuaValue.scalar).Perm (entries.map Prod.fst)

variable {levels sizearray : Nat} {strings : List (List UInt8)} {name : Scalar}
  {all : List (Scalar × LuaValue)} {tbl : Table Value} {v : LuaValue} {value : Value}

theorem Converted.shows (converted : Converted levels strings v value) :
    Shows (.ok (pushvalue strings value)) v := by
  obtain ⟨ctx, after, _, ok, ahead⟩ := converted
  cases v with
  | scalar s =>
    cases s with
    | lightuserdata address => cases ok
    | string str =>
      cases ok
      have at_ := (stringindex_value ahead).2
      exact congrArg (fun s => Except.ok (Pushed.scalar (.string s))) (tolstring_valid at_)
    | nil | boolean | integer | number =>
      cases ok
      rfl
  | table rawlen entries =>
    obtain ⟨made, _, same⟩ := map_ok.mp ok
    cases same
    exact ⟨made.2, rfl⟩
  | other type => cases ok

theorem Converted.nil_iff (converted : Converted levels strings v value) :
    value.isNil = true ↔ v = nil := by
  obtain ⟨ctx, after, _, ok, _⟩ := converted
  cases v with
  | scalar s =>
    cases s with
    | lightuserdata address => cases ok
    | nil | boolean | integer | number | string =>
      cases ok
      simp [nil, Value.isNil]
  | table rawlen entries =>
    obtain ⟨made, _, same⟩ := map_ok.mp ok
    cases same
    simp [nil, Value.isNil]
  | other type => cases ok

theorem rawget_entry (nodup : (all.map Prod.fst).Nodup) (member : (name, v) ∈ all) :
    rawget (all.map entry) name = v := by
  rcases rawget_cases (all.map entry) name with ⟨_, missing⟩ | ⟨other, inside, same, result⟩
  · exact absurd rfl (missing (entry (name, v)) (List.mem_map_of_mem member))
  · obtain ⟨pair, there, rfl⟩ := List.mem_map.mp inside
    have named : pair.1 = name := by
      simpa [entry] using same
    have equal : pair = (name, v) := List.inj_on_of_nodup_map nodup there member named
    rw [result, equal]
    rfl

theorem rawget_absent (outside : name ∉ all.map Prod.fst) : rawget (all.map entry) name = nil := by
  rcases rawget_cases (all.map entry) name with ⟨missing, _⟩ | ⟨other, inside, same, _⟩
  · exact missing
  · obtain ⟨pair, there, rfl⟩ := List.mem_map.mp inside
    have named : pair.1 = name := by
      simpa [entry] using same
    exact absurd (named ▸ List.mem_map_of_mem there) outside

-- `lookup_key` as it is called for a key that is not in the array.
def lookupName (strings : List (List UInt8)) (tbl : Table Value) : Scalar → Option (Option Nat)
  | .integer n => lookupKey strings tbl n.toInt32.toUInt32 (.inl n.toInt32)
  | .string str => lookupKey strings tbl (calchash str) (.inr str)
  | _ => none

def sameName (strings : List (List UInt8)) : Scalar → Key → Bool
  | .integer n => sameKey strings (.inl n.toInt32)
  | .string str => sameKey strings (.inr str)
  | _ => fun _ => false

theorem lookupName_eq (is : IsKey name) :
    lookupName strings tbl name = find tbl.hash (hashKey name).toNat
      fun n => (hashKey name).toNat = n.hash && sameName strings name n.key := by
  cases name with
  | integer | string => rfl
  | nil | boolean | number | lightuserdata => exact is.elim

theorem sameName_iff (is : IsKey name) (key : Key) :
    sameName strings name key = true ↔ pushkey strings key = name := by
  cases name with
  | integer n =>
    cases key with
    | integer key =>
      simp only [sameName, sameKey, decide_eq_true_eq, pushkey, Scalar.integer.injEq]
      constructor
      · intro same
        rw [same]
        exact toInt64_toInt32 is.1 is.2
      · intro same
        rw [← same, Int32.toInt32_toInt64]
    | string index => simp [sameName, sameKey, pushkey]
  | string str =>
    cases key with
    | integer key => simp [sameName, sameKey, pushkey]
    | string index => simp [sameName, sameKey, pushkey]
  | nil | boolean | number | lightuserdata => exact is.elim

theorem Built.distinct (built : Built levels strings sizearray all tbl)
    (plain : Plain sizearray all) :
    ((items tbl.hash).map fun item => pushkey strings item.1).Nodup :=
  built.names.nodup_iff.mpr (plain.nodup.filter _)

theorem Built.lookup_slot (built : Built levels strings sizearray all tbl)
    (plain : Plain sizearray all) (is : IsKey name) {i : Nat} {slot : Slot Key Value}
    (filled : Filled tbl.hash i slot) (named : pushkey strings slot.key = name) :
    lookupName strings tbl name = some (some i) := by
  have hash : slot.hash = (hashKey name).toNat :=
    named ▸ (built.stored slot.item (mem_items.mpr ⟨i, slot, filled, rfl⟩)).hash
  rw [lookupName_eq is, ← hash]
  refine find_present built.chained filled _ ?_ ?_
  · simp [(sameName_iff is slot.key).mpr named]
  · intro j other there same
    rw [Bool.and_eq_true, sameName_iff is] at same
    exact filled_inj (built.distinct plain) there filled (same.2.trans named.symm)

theorem Built.lookup_absent (built : Built levels strings sizearray all tbl) (is : IsKey name)
    (absent : name ∉ hashKeys sizearray all) : lookupName strings tbl name = some none := by
  rw [lookupName_eq is]
  refine find_absent built.chained built.full _ _ ?_
  intro i slot filled
  rw [Bool.and_eq_false_iff]
  right
  rw [Bool.eq_false_iff, ne_eq, sameName_iff is]
  intro named
  refine absent (built.names.mem_iff.mp (List.mem_map.mpr ⟨slot.item, ?_, named⟩))
  exact mem_items.mpr ⟨i, slot, filled, rfl⟩

theorem indexconf_hash (is : IsKey name) (built : Built levels strings sizearray all tbl)
    (outside : ¬InArray sizearray name) :
    indexconf strings tbl name = pushslot strings tbl (lookupName strings tbl name) := by
  cases name with
  | integer n =>
    have range : ¬(0 < n.toInt32.toInt ∧ n.toInt32.toInt ≤ tbl.array.length) := by
      rw [toInt32_toInt is.1 is.2, built.array.1]
      exact outside
    simp only [indexconf]
    rw [if_neg range]
    rfl
  | string str => rfl
  | nil | boolean | number | lightuserdata => exact is.elim

theorem Built.index (built : Built levels strings sizearray all tbl) (plain : Plain sizearray all)
    (is : IsKey name) : ∃ value, indexconf strings tbl name = .ok (pushvalue strings value) ∧
      Converted levels strings (rawget (all.map entry) name) value := by
  by_cases inside : InArray sizearray name
  · cases name with
    | integer n =>
      have border := plain.border
      have low : 0 < n.toInt := inside.1
      have high : n.toInt ≤ sizearray := inside.2
      have range : 0 < n.toInt32.toInt ∧ n.toInt32.toInt ≤ tbl.array.length := by
        rw [toInt32_toInt is.1 is.2, built.array.1]
        exact inside
      have copied := built.array.2 (n.toInt.toNat - 1) (by omega)
      have same : Int64.ofNat (n.toInt.toNat - 1 + 1) = n := by
        rw [← Int64.toInt_inj, toInt_ofNat (by omega)]
        omega
      rw [same] at copied
      refine ⟨_, ?_, copied⟩
      simp only [indexconf]
      rw [if_pos range, toInt32_toInt is.1 is.2]
    | nil | boolean | number | string | lightuserdata => exact inside.elim
  · rw [indexconf_hash is built inside]
    by_cases member : name ∈ all.map Prod.fst
    · have part : name ∈ hashKeys sizearray all := mem_hashKeys.mpr ⟨member, inside⟩
      obtain ⟨item, there, named⟩ := List.mem_map.mp (built.names.mem_iff.mpr part)
      obtain ⟨i, slot, filled, rfl⟩ := mem_items.mp there
      obtain ⟨v, original, converted⟩ := (built.stored _ there).value
      have at_ : tbl.hash[i]? = some (some slot) := filled
      rw [built.lookup_slot plain is filled named]
      refine ⟨slot.value, ?_, ?_⟩
      · simp only [pushslot, at_]
      · rw [rawget_entry plain.nodup (named ▸ original)]
        exact converted
    · have absent : name ∉ hashKeys sizearray all := fun part => member (mem_hashKeys.mp part).1
      rw [built.lookup_absent is absent, rawget_absent member]
      exact ⟨.nil, rfl, converted_nil levels strings⟩

theorem nextarray_end {i : Nat} (past : tbl.array.length ≤ i) : nextarray tbl i = none := by
  simp [nextarray, List.drop_eq_nil_of_le past]

theorem nextarray_skip {i : Nat} (inside : i < tbl.array.length)
    (empty : (tbl.array.getD i .nil).isNil = true) : nextarray tbl i = nextarray tbl (i + 1) := by
  rw [List.getD_eq_getElem?_getD, List.getElem?_eq_getElem inside, Option.getD_some] at empty
  unfold nextarray
  rw [List.drop_eq_getElem_cons inside, List.findIdx?_cons, empty]
  simp only [Bool.not_true, Bool.false_eq_true, if_false, Option.map_map]
  congr 1
  funext at_
  simp only [Function.comp_apply]
  omega

theorem nextarray_here {i : Nat} (inside : i < tbl.array.length)
    (there : (tbl.array.getD i .nil).isNil = false) : nextarray tbl i = some (i + 1) := by
  rw [List.getD_eq_getElem?_getD, List.getElem?_eq_getElem inside, Option.getD_some] at there
  unfold nextarray
  rw [List.drop_eq_getElem_cons inside, List.findIdx?_cons, there]
  rfl

def arrayKeys (tbl : Table Value) (i : Nat) : List Scalar :=
  ((List.range' i (tbl.array.length - i)).filter fun j => !(tbl.array.getD j .nil).isNil).map
    fun j => .integer (Int64.ofNat (j + 1))

theorem arrayKeys_end {i : Nat} (past : tbl.array.length ≤ i) : arrayKeys tbl i = [] := by
  simp [arrayKeys, Nat.sub_eq_zero_of_le past]

theorem arrayKeys_step {i : Nat} (inside : i < tbl.array.length) :
    arrayKeys tbl i = if (tbl.array.getD i .nil).isNil = true then arrayKeys tbl (i + 1)
      else .integer (Int64.ofNat (i + 1)) :: arrayKeys tbl (i + 1) := by
  have size : tbl.array.length - i = (tbl.array.length - (i + 1)) + 1 := by omega
  unfold arrayKeys
  rw [size, List.range'_succ, List.filter_cons]
  cases empty : (tbl.array.getD i .nil).isNil with
  | true => rfl
  | false => rfl

def slotKeys (strings : List (List UInt8)) (tbl : Table Value) : List Scalar :=
  (items tbl.hash).map fun item => pushkey strings item.1

theorem nextkey_slot (built : Built levels strings sizearray all tbl) (plain : Plain sizearray all)
    {i : Nat} {slot : Slot Key Value} (filled : Filled tbl.hash i slot) :
    nextkey strings tbl (pushkey strings slot.key) = pushslotkey strings tbl (i + 1) := by
  have part := built.names.mem_iff.mp
    (List.mem_map.mpr ⟨slot.item, mem_items.mpr ⟨i, slot, filled, rfl⟩, rfl⟩)
  obtain ⟨member, outside⟩ := mem_hashKeys.mp part
  obtain ⟨pair, there, same⟩ := List.mem_map.mp member
  have is : IsKey (pushkey strings slot.key) := same ▸ plain.keys pair there
  have found := built.lookup_slot plain is filled rfl
  have outside : ¬InArray sizearray (pushkey strings slot.key) := outside
  generalize pushkey strings slot.key = name at found is outside
  have goes : nextkey strings tbl name = nextslot strings tbl (lookupName strings tbl name) := by
    cases name with
    | integer n =>
      have range : ¬(0 < n.toInt32.toInt ∧ n.toInt32.toInt ≤ tbl.array.length) := by
        rw [toInt32_toInt is.1 is.2, built.array.1]
        exact outside
      simp only [nextkey]
      rw [if_neg range]
      rfl
    | string str => rfl
    | nil | boolean | number | lightuserdata => exact is.elim
  rw [goes, found]
  rfl

theorem visit_slots (built : Built levels strings sizearray all tbl) (plain : Plain sizearray all)
    (i fuel : Nat) (enough : tbl.hash.length - i ≤ fuel) :
    visit strings tbl fuel (pushslotkey strings tbl i) = some ((slotKeys strings tbl).drop i) := by
  induction fuel generalizing i with
  | zero =>
    have past : tbl.hash.length ≤ i := by omega
    have short : (slotKeys strings tbl).length ≤ i := by
      simpa [slotKeys, built.full] using past
    rw [List.drop_eq_nil_of_le short, pushslotkey, List.getElem?_eq_none past]
    rfl
  | succ fuel ih =>
    by_cases inside : i < tbl.hash.length
    · obtain ⟨slot, filled⟩ := filled_of_full built.full inside
      have at_ : tbl.hash[i]? = some (some slot) := filled
      have item := items_getElem_of_full built.full filled
      obtain ⟨short, is⟩ := List.getElem?_eq_some_iff.mp item
      have first : (slotKeys strings tbl).drop i =
          pushkey strings slot.key :: (slotKeys strings tbl).drop (i + 1) := by
        rw [List.drop_eq_getElem_cons (by simpa [slotKeys] using short)]
        simp only [slotKeys, List.getElem_map, is]
        rfl
      simp only [pushslotkey, at_, visit]
      rw [nextkey_slot built plain filled, ih (i + 1) (by omega), first]
      rfl
    · have past : tbl.hash.length ≤ i := by omega
      have short : (slotKeys strings tbl).length ≤ i := by
        simpa [slotKeys, built.full] using past
      rw [List.drop_eq_nil_of_le short, pushslotkey, List.getElem?_eq_none past]
      rfl

theorem visit_array (built : Built levels strings sizearray all tbl) (plain : Plain sizearray all)
    (i fuel : Nat) (enough : (arrayKeys tbl i).length + tbl.hash.length ≤ fuel) :
    visit strings tbl fuel (arraykey strings tbl i) =
      some (arrayKeys tbl i ++ slotKeys strings tbl) := by
  have border := plain.border
  have length := built.array.1
  by_cases past : tbl.array.length ≤ i
  · rw [arrayKeys_end past, arraykey, nextarray_end past]
    have all := visit_slots built plain 0 fuel (by omega)
    rwa [List.drop_zero] at all
  · have inside : i < tbl.array.length := by omega
    have step := arrayKeys_step inside
    cases empty : (tbl.array.getD i .nil).isNil with
    | true =>
      rw [if_pos empty] at step
      have same : arraykey strings tbl i = arraykey strings tbl (i + 1) := by
        rw [arraykey, nextarray_skip inside empty, arraykey]
      rw [same, step]
      exact visit_array built plain (i + 1) fuel (step ▸ enough)
    | false =>
      rw [if_neg (by rw [empty]; exact Bool.false_ne_true)] at step
      rw [step, List.length_cons] at enough
      obtain ⟨fuel, rfl⟩ : ∃ n, fuel = n + 1 := ⟨fuel - 1, by omega⟩
      have at_ := toInt_ofNat (n := i + 1) (by omega)
      have narrow := toInt32_toInt (n := Int64.ofNat (i + 1)) (by omega) (by omega)
      have goes : nextkey strings tbl (.integer (Int64.ofNat (i + 1))) =
          arraykey strings tbl (i + 1) := by
        simp only [nextkey, narrow, at_]
        rw [if_pos ⟨by omega, by omega⟩]
        congr 1
      rw [arraykey, nextarray_here inside empty]
      simp only [visit]
      rw [goes, visit_array built plain (i + 1) fuel (by omega), step]
      rfl
  termination_by tbl.array.length - i

theorem integer_ofNat_inj {i j : Nat} (one : i < 2 ^ 31) (two : j < 2 ^ 31)
    (same : Int64.ofNat i = Int64.ofNat j) : i = j := by
  have equal := congrArg Int64.toInt same
  rw [toInt_ofNat one, toInt_ofNat two] at equal
  exact Int.ofNat.inj equal

theorem arrayKeys_perm (built : Built levels strings sizearray all tbl)
    (plain : Plain sizearray all) :
    (arrayKeys tbl 0).Perm ((all.map Prod.fst).filter fun name => InArray sizearray name) := by
  have border := plain.border
  have length := built.array.1
  rw [List.perm_ext_iff_of_nodup]
  · intro name
    simp only [arrayKeys, List.mem_map, List.mem_filter, Nat.sub_zero, decide_eq_true_eq,
      Bool.not_eq_true', List.mem_range'_1, Nat.zero_le, true_and, Nat.zero_add, length]
    constructor
    · rintro ⟨j, ⟨inside, there⟩, rfl⟩
      have copied := built.array.2 j inside
      have at_ := toInt_ofNat (n := j + 1) (by omega)
      refine ⟨?_, ⟨by omega, by omega⟩⟩
      by_contra outside
      have missing := copied.nil_iff.mpr
        (rawget_absent fun member => outside (List.mem_map.mp member))
      rw [there] at missing
      cases missing
    · rintro ⟨⟨pair, member, rfl⟩, inside⟩
      obtain ⟨name, v⟩ := pair
      cases name with
      | integer n =>
        have low : 0 < n.toInt := inside.1
        have high : n.toInt ≤ sizearray := inside.2
        have same : Int64.ofNat (n.toInt.toNat - 1 + 1) = n := by
          rw [← Int64.toInt_inj, toInt_ofNat (by omega)]
          omega
        have copied := built.array.2 (n.toInt.toNat - 1) (by omega)
        rw [same, rawget_entry plain.nodup member] at copied
        refine ⟨n.toInt.toNat - 1, ⟨by omega, ?_⟩, congrArg Scalar.integer same⟩
        rw [Bool.eq_false_iff, ne_eq, copied.nil_iff]
        exact plain.values _ member
      | nil | boolean | number | string | lightuserdata => exact inside.elim
  · refine (List.Nodup.filter _ List.nodup_range').map_on ?_
    intro i one j two same
    have small := (List.mem_range'_1.mp (List.mem_filter.mp one).1).2
    have little := (List.mem_range'_1.mp (List.mem_filter.mp two).1).2
    have equal := integer_ofNat_inj (by omega) (by omega) (Scalar.integer.inj same)
    omega
  · exact plain.nodup.filter _

theorem Built.reads_back (built : Built levels strings sizearray all tbl)
    (plain : Plain sizearray all) : ReadsBack strings tbl sizearray (all.map entry) where
  index := by
    intro key is
    obtain ⟨value, result, converted⟩ := built.index plain is
    rw [result]
    exact converted.shows
  len := built.array.1
  iterate := by
    have keys : (arrayKeys tbl 0 ++ slotKeys strings tbl).Perm (all.map Prod.fst) := by
      refine ((arrayKeys_perm built plain).append built.names).trans ?_
      have parts := List.filter_append_perm (fun name => decide (InArray sizearray name))
        (all.map Prod.fst)
      simpa [hashKeys] using parts
    refine ⟨_, visit_array built plain 0 _ ?_, ?_⟩
    · have size := keys.length_eq
      rw [List.length_append, List.length_map, slotKeys, List.length_map, built.full] at size
      rw [List.length_map]
      exact size.le
    · have mapped := keys.map LuaValue.scalar
      rwa [List.map_map, ← show (all.map entry).map Prod.fst =
        all.map (LuaValue.scalar ∘ Prod.fst) by rw [List.map_map]; rfl] at mapped

def walk : LuaValue → List Scalar → LuaValue
  | v, [] => v
  | .table _ entries, key :: path => walk (rawget entries key) path
  | _, _ :: _ => nil

def follow (strings : List (List UInt8)) : Table Value → List Scalar → Option (Table Value)
  | tbl, [] => some tbl
  | tbl, key :: path =>
      match indexconf strings tbl key with
      | .ok (.table sub) => follow strings sub path
      | _ => none

def Shareable (root : LuaValue) : Prop :=
  ∀ path sizearray entries, walk root path = .table sizearray entries →
    ∃ all, entries = all.map entry ∧ Plain sizearray all

theorem walk_table {path : List Scalar} {size : Nat} {entries : Entries}
    (there : walk v path = .table size entries) : ∃ size entries, v = .table size entries := by
  cases v with
  | table size entries => exact ⟨size, entries, rfl⟩
  | scalar value | other value =>
    cases path with
    | nil => cases there
    | cons key path => cases there

theorem Shareable.sub {entries : Entries} {key : Scalar}
    (shareable : Shareable (.table sizearray entries)) : Shareable (rawget entries key) :=
  fun path size sub there => shareable (key :: path) size sub there

theorem convtable_reads_back (path : List Scalar) {ctx : Context} {made : Context × Table Value}
    {entries : Entries} {size : Nat} {sub : Entries}
    (shareable : Shareable (.table sizearray entries)) (start : ctx.strings.Nodup)
    (ok : convtable levels ctx sizearray entries = .ok made) (once : strings.Nodup)
    (ahead : made.1.strings <+: strings)
    (there : walk (.table sizearray entries) path = .table size sub) :
    ∃ tbl, follow strings made.2 path = some tbl ∧ ReadsBack strings tbl size sub := by
  induction path generalizing levels ctx made sizearray entries with
  | nil =>
    cases there
    cases levels with
    | zero => cases ok
    | succ levels =>
      obtain ⟨all, rfl, plain⟩ := shareable [] _ _ rfl
      exact ⟨made.2, rfl, (convtable_built plain start ok once ahead).reads_back plain⟩
  | cons key path ih =>
    cases levels with
    | zero => cases ok
    | succ levels =>
      obtain ⟨all, rfl, plain⟩ := shareable [] _ _ rfl
      obtain ⟨subsize, subentries, is⟩ := walk_table (v := rawget (all.map entry) key) there
      have member : key ∈ all.map Prod.fst := by
        by_contra outside
        cases is.symm.trans (rawget_absent outside)
      obtain ⟨pair, inside, rfl⟩ := List.mem_map.mp member
      obtain ⟨value, result, ctx, after, begins, converted, ahead⟩ :=
        (convtable_built plain start ok once ahead).index plain (plain.keys pair inside)
      rw [is] at converted
      obtain ⟨next, built, same⟩ := map_ok.mp converted
      cases same
      have later : Shareable (.table subsize subentries) := is ▸ shareable.sub
      have goes : walk (.table subsize subentries) path = .table size sub := is ▸ there
      obtain ⟨tbl, found, reads⟩ := ih later begins built ahead goes
      refine ⟨tbl, ?_, reads⟩
      simp only [follow, result, pushvalue]
      exact found

theorem shared_table_reads_back (levels sizearray : Nat) (entries : Entries) (conf : Conf)
    (shareable : Shareable (.table sizearray entries))
    (accepted : newconf levels sizearray entries = .ok conf) (path : List Scalar) (size : Nat)
    (sub : Entries) (there : walk (.table sizearray entries) path = .table size sub) :
    ∃ tbl, follow conf.strings conf.root path = some tbl ∧
      ReadsBack conf.strings tbl size sub := by
  simp only [newconf] at accepted
  obtain ⟨made, ok, accepted⟩ := bind_ok.mp accepted
  split_ifs at accepted with full
  cases accepted
  have once := (convtable_grows levels _ _ _ _ ok).2 List.nodup_nil
  exact convtable_reads_back path shareable List.nodup_nil ok once List.prefix_rfl there

-- `{10, 20, [4] = {x = 1}, y = "x"}`: 4 and "y" meet in one slot.
def nested : List (Scalar × LuaValue) :=
  [(.integer 1, .scalar (.integer 10)), (.integer 2, .scalar (.integer 20)),
    (.integer 4, .table 0 [(.scalar (.string [120]), .scalar (.integer 1))]),
    (.string [121], .scalar (.string [120]))]

def inner : List (Scalar × LuaValue) := [(.string [120], .scalar (.integer 1))]

theorem nested_plain : Plain 2 nested := by
  refine ⟨?_, by simp [nested], ?_, by decide⟩
  · rintro pair (_ | ⟨_, _ | ⟨_, _ | ⟨_, _ | ⟨_, ⟨⟩⟩⟩⟩⟩)
    · exact ⟨by decide, by decide⟩
    · exact ⟨by decide, by decide⟩
    · exact ⟨by decide, by decide⟩
    · trivial
  · simp [nested, nil]

theorem inner_plain : Plain 0 inner := by
  refine ⟨?_, by simp [inner], by simp [inner, nil], by decide⟩
  rintro pair (_ | ⟨_, ⟨⟩⟩)
  trivial

theorem nested_shareable : Shareable (.table 2 (nested.map entry)) := by
  intro path size entries there
  cases path with
  | nil =>
    cases there
    exact ⟨nested, rfl, nested_plain⟩
  | cons key path =>
    have second : walk (rawget (nested.map entry) key) path = .table size entries := there
    obtain ⟨subsize, subentries, is⟩ := walk_table second
    rcases rawget_cases (nested.map entry) key with ⟨none_, _⟩ | ⟨other, inside, _, result⟩
    · cases is.symm.trans none_
    · have value : other.2 = .table subsize subentries := result.symm.trans is
      simp only [nested, entry, List.map_cons, List.map_nil, List.mem_cons, List.not_mem_nil,
        or_false] at inside
      rcases inside with rfl | rfl | rfl | rfl
      · cases value
      · cases value
      · cases value
        rw [is] at second
        cases path with
        | nil =>
          cases second
          exact ⟨inner, rfl, inner_plain⟩
        | cons key path =>
          have third : walk (rawget (inner.map entry) key) path = .table size entries := second
          obtain ⟨_, _, is⟩ := walk_table third
          rcases rawget_cases (inner.map entry) key with ⟨none_, _⟩ | ⟨other, inside, _, result⟩
          · cases is.symm.trans none_
          · simp only [inner, entry, List.map_cons, List.map_nil, List.mem_cons, List.not_mem_nil,
              or_false] at inside
            subst inside
            cases is.symm.trans result
      · cases value

theorem nested_reads_back :
    ∃ conf, newconf 10 2 (nested.map entry) = .ok conf ∧
      ∃ tbl, follow conf.strings conf.root [.integer 4] = some tbl ∧
        ReadsBack conf.strings tbl 0 (inner.map entry) :=
  ⟨_, rfl, shared_table_reads_back 10 2 _ _ nested_shareable rfl [.integer 4] 0 _ rfl⟩

end Pskynet.Sharedata
