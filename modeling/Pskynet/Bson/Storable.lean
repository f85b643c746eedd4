import Pskynet.Bson.Integers

set_option autoImplicit false

namespace Pskynet.Bson

inductive Same : Value → Value → Prop where
  | refl (value : Value) : Same value value
  | table (rawlen rawlen' : Nat) (entries entries' : Entries)
      (values : ∀ key, Same (rawget entries key) (rawget entries' key)) :
      Same (.table rawlen entries) (.table rawlen' entries')

def TextKeys (entries : Entries) : Prop :=
  (∀ key ∈ entries.keys, ∃ text, key = .string text ∧ 0 ∉ text) ∧ entries.keys.Nodup

def SequenceKeys (n : Nat) (entries : Entries) : Prop :=
  (∀ key, key ∈ entries.keys ↔ ∃ i, 1 ≤ i ∧ i ≤ n ∧ key = .integer (Int64.ofNat i)) ∧
    entries.keys.Nodup

inductive Storable : Value → Prop where
  | boolean (v : Bool) : Storable (.boolean v)
  | integer (i : Int64) (low : -2 ^ 31 ≤ i.toInt) (high : i.toInt < 2 ^ 31) : Storable (.integer i)
  | number (bits : UInt64) : Storable (.number bits)
  | string (str : List UInt8) (text : plain str) : Storable (.string str)
  | special (str : List UInt8) (made : Special str) : Storable (.string str)
  | document (entries : Entries) (keys : TextKeys entries)
      (values : ∀ entry ∈ entries, Storable entry.2) : Storable (.table 0 entries)
  | sequence (n : Nat) (entries : Entries) (keys : SequenceKeys n entries)
      (array : isArray n entries = .ok true) (values : ∀ entry ∈ entries, Storable entry.2) :
      Storable (.table n entries)

theorem count_lregex (pattern options : List UInt8) :
    (lregex pattern options).count 0 = (pattern ++ options).count 0 + 3 := by
  simp [lregex, bsonRegex]
  omega

theorem torn_lregex (pattern options : List UInt8) :
    Torn (lregex pattern options) ↔ 0 ∈ pattern ++ options := by
  constructor
  · rintro ⟨pattern', options', same, torn⟩
    have count := congrArg (List.count 0) same
    rw [count_lregex, count_lregex] at count
    rw [← List.count_pos_iff] at torn ⊢
    omega
  · exact fun torn => ⟨pattern, options, rfl, torn⟩

inductive HoldsTorn : Value → Prop where
  | string (str : List UInt8) (torn : Torn str) : HoldsTorn (.string str)
  | table (rawlen : Nat) (entries : Entries) (entry : Key × Value) (inside : entry ∈ entries)
      (torn : HoldsTorn entry.2) : HoldsTorn (.table rawlen entries)

section

variable (number2str : UInt64 → List UInt8)

theorem fieldsOf_some (array : Bool) (entries : Entries)
    (keys : ∀ entry ∈ entries, ∃ text, elementKey number2str array entry.1 = .ok text)
    (values : ∀ entry ∈ entries, ∃ item, itemOf number2str entry.2 = some item) :
    ∃ fields, fieldsOf number2str array entries = some fields := by
  induction entries with
  | nil => exact ⟨[], rfl⟩
  | cons entry entries ih =>
    obtain ⟨text, same⟩ := keys entry (by simp)
    obtain ⟨item, itemSame⟩ := values entry (by simp)
    obtain ⟨fields, written⟩ := ih (fun other inside => keys other (by simp [inside]))
      fun other inside => values other (by simp [inside])
    exact ⟨(text, item) :: fields, by simp only [fieldsOf, same, itemSame, written, Option.map_some]⟩

theorem fieldsOf_mem (array : Bool) (entries : Entries) (fields : Fields)
    (written : fieldsOf number2str array entries = some fields) :
    entries.length ≤ (fieldsBytes fields).length ∧ ∀ entry ∈ entries, ∃ item,
      itemOf number2str entry.2 = some item ∧ item.bytes.length ≤ (fieldsBytes fields).length := by
  induction entries generalizing fields with
  | nil => simp
  | cons entry entries ih =>
    obtain ⟨key, value⟩ := entry
    simp only [fieldsOf] at written
    cases text : elementKey number2str array key with
    | error fault =>
      rw [text] at written
      cases written
    | ok text' =>
      rw [text] at written
      cases item : itemOf number2str value with
      | none =>
        rw [item] at written
        cases written
      | some item' =>
        rw [item] at written
        obtain ⟨rest, later, rfl⟩ := Option.map_eq_some_iff.mp written
        obtain ⟨count, each⟩ := ih rest later
        have size : (fieldsBytes ((text', item') :: rest)).length =
            (text'.length + 2 + item'.bytes.length) + (fieldsBytes rest).length := by
          rw [fieldsBytes_cons, fieldBytes]
          simp
          omega
        refine ⟨by rw [List.length_cons]; omega, ?_⟩
        rintro entry (_ | ⟨_, inside⟩)
        · exact ⟨item', item, by omega⟩
        · obtain ⟨other, same, small⟩ := each entry inside
          exact ⟨other, same, by omega⟩

theorem splitLast_some (str : List UInt8) (torn : 0 ∈ str) : ∃ parts, splitLast str = some parts := by
  unfold splitLast
  simp only
  split_ifs with whole
  · have size : (str.reverse.takeWhile (· ≠ 0)).length = str.reverse.length := by
      rwa [List.length_reverse, ← List.length_reverse]
    have all := (List.takeWhile_prefix _).eq_of_length size
    have clean := List.takeWhile_eq_self_iff.mp all 0 (List.mem_reverse.mpr torn)
    exact absurd rfl (of_decide_eq_true clean)
  · exact ⟨_, rfl⟩

theorem special_item (str : List UInt8) (made : Special str) :
    ∃ item, itemOf number2str (.string str) = some item := by
  by_cases torn : Torn str
  · obtain ⟨pattern, options, rfl, -⟩ := torn
    obtain ⟨parts, split⟩ := splitLast_some (pattern ++ [0] ++ options) (by simp)
    refine ⟨.leaf bsonRegex ((parts.1 ++ [0]) ++ (parts.2 ++ [0])), ?_⟩
    change (subtypeBytes bsonRegex (pattern ++ [0] ++ options ++ [0])).map _ = _
    unfold subtypeBytes
    rw [if_neg (by decide), if_neg (by simp [bsonRegex, bsonObjectid]), if_neg (by decide),
      if_neg (by decide), if_neg (by decide), if_pos rfl, List.dropLast_concat, split]
    rfl
  · obtain ⟨item, -, same, -⟩ := special_reads number2str (fun _ => 0) str made torn
    exact ⟨item, same⟩

theorem isArray_zero (entries : Entries) : isArray 0 entries = .ok false := rfl

theorem sequence_key (n : Nat) (entries : Entries) (keys : SequenceKeys n entries)
    (key : Key) (inside : key ∈ entries.keys) : ∃ i : Nat, i ≤ n ∧ key = .integer (Int64.ofNat i) := by
  obtain ⟨i, -, most, same⟩ := (keys.1 key).mp inside
  exact ⟨i, most, same⟩

theorem storable_item (value : Value) (storable : Storable value) :
    ∃ item, itemOf number2str value = some item := by
  induction storable with
  | boolean | integer | number => exact ⟨_, rfl⟩
  | string str text =>
    obtain ⟨item, -, same, -⟩ := plain_reads number2str (fun _ => 0) str text
    exact ⟨item, same⟩
  | special str made => exact special_item number2str str made
  | document entries keys values ih =>
    obtain ⟨fields, written⟩ := fieldsOf_some number2str false entries (by
      intro entry inside
      obtain ⟨text, same, -⟩ := keys.1 entry.1 (List.mem_map_of_mem inside)
      exact ⟨text, by rw [same]; rfl⟩) ih
    exact ⟨.table false fields, by simp only [itemOf, isArray_zero, written, Option.map_some]⟩
  | sequence n entries keys array values ih =>
    obtain ⟨fields, written⟩ := fieldsOf_some number2str true entries (by
      intro entry inside
      obtain ⟨i, -, same⟩ := sequence_key n entries keys entry.1 (List.mem_map_of_mem inside)
      exact ⟨_, by rw [same]; rfl⟩) ih
    exact ⟨.table true fields, by simp only [itemOf, array, written, Option.map_some]⟩

theorem sequence_length (n m : Nat) (entries : Entries) (keys : SequenceKeys n entries) (part : m ≤ n)
    (small : m < 2 ^ 63) : m ≤ entries.length := by
  have indices : ((List.range' 1 m).map fun i => Key.integer (Int64.ofNat i)).Nodup := by
    refine (List.nodup_map_iff_inj_on List.nodup_range').mpr ?_
    intro i inside j other same
    rw [List.mem_range'_1] at inside other
    have equal := congrArg Int64.toInt (Key.integer.inj same)
    rw [Int64.toInt_ofNat_of_lt (by omega), Int64.toInt_ofNat_of_lt (by omega)] at equal
    omega
  have within : ((List.range' 1 m).map fun i => Key.integer (Int64.ofNat i)) ⊆ entries.keys := by
    intro key inside
    obtain ⟨i, range, rfl⟩ := List.mem_map.mp inside
    rw [List.mem_range'_1] at range
    exact (keys.1 _).mpr ⟨i, by omega, by omega, rfl⟩
  have length := (indices.subperm within).length_le
  simpa [Entries.keys] using length

theorem wireKey_text (text : List UInt8) :
    wireKey number2str false (.string text) = .string text := rfl

theorem wireKey_array (key : Key) : wireKey number2str true key = key := by
  unfold wireKey
  cases elementKey number2str false key <;> rfl

theorem storable_kept (value : Value) (storable : Storable value) (whole : ¬HoldsTorn value)
    (item : Item) (same : itemOf number2str value = some item)
    (small : item.bytes.length ≤ 2 ^ 30) : Kept number2str value := by
  have inner (rawlen : Nat) (entries : Entries) (array : Bool)
      (choice : isArray rawlen entries = .ok array)
      (whole : ¬HoldsTorn (.table rawlen entries)) (item : Item)
      (same : itemOf number2str (.table rawlen entries) = some item)
      (small : item.bytes.length ≤ 2 ^ 30)
      (ih : ∀ entry ∈ entries, ¬HoldsTorn entry.2 → ∀ item, itemOf number2str entry.2 = some item →
        item.bytes.length ≤ 2 ^ 30 → Kept number2str entry.2) :
      entries.length ≤ 2 ^ 30 ∧ ∀ entry ∈ entries, Kept number2str entry.2 := by
    simp only [itemOf, choice] at same
    obtain ⟨fields, written, rfl⟩ := Option.map_eq_some_iff.mp same
    rw [Item.bytes, length_enclosed] at small
    obtain ⟨count, each⟩ := fieldsOf_mem number2str array entries fields written
    refine ⟨by omega, ?_⟩
    intro entry inside
    obtain ⟨item, itemSame, part⟩ := each entry inside
    exact ih entry inside (fun torn => whole (.table _ _ entry inside torn)) item itemSame (by omega)
  induction storable generalizing item with
  | boolean v => exact .boolean v
  | integer i => exact .integer i
  | number bits => exact .number bits
  | string str text => exact .string str text
  | special str made => exact .special str made fun torn => whole (.string str torn)
  | document entries keys values ih =>
    obtain ⟨-, kept⟩ := inner 0 entries false rfl whole item same small ih
    have texts (entry : Key × Value) (inside : entry ∈ entries) :
        ∃ text, entry.1 = .string text ∧ 0 ∉ text := keys.1 _ (List.mem_map_of_mem inside)
    refine .table 0 entries false rfl ?_ ?_ kept
    · intro entry inside
      obtain ⟨text, same, clean⟩ := texts entry inside
      rw [same]
      exact ⟨text, rfl, clean⟩
    · have names : (entries.map fun entry => wireKey number2str false entry.1) = entries.keys := by
        refine List.map_congr_left fun entry inside => ?_
        obtain ⟨text, same, -⟩ := texts entry inside
        rw [same, wireKey_text]
      rw [names]
      exact keys.2
  | sequence n entries keys array values ih =>
    obtain ⟨count, kept⟩ := inner n entries true array whole item same small ih
    have bound : n < 2 ^ 31 := by
      by_contra large
      have length := sequence_length n (2 ^ 31) entries keys (not_lt.mp large) (by omega)
      omega
    refine .table n entries true array ?_ ?_ kept
    · intro entry inside
      obtain ⟨i, most, same⟩ := sequence_key n entries keys entry.1 (List.mem_map_of_mem inside)
      refine ⟨_, same, ?_⟩
      rw [Int64.toInt_ofNat_of_lt (by omega)]
      omega
    · simp only [wireKey_array]
      exact keys.2

theorem table_same (array : Bool) (rawlen rawlen' : Nat) (entries entries' : Entries)
    (keys : ∀ key ∈ entries.keys, wireKey number2str array key = key)
    (distinct : entries.keys.Nodup)
    (there : ∀ entry ∈ entries,
      Same entry.2 (rawget entries' (wireKey number2str array entry.1)))
    (only : ∀ key, rawget entries' key ≠ .nil →
      ∃ entry ∈ entries, wireKey number2str array entry.1 = key) :
    Same (.table rawlen entries) (.table rawlen' entries') := by
  refine .table _ _ _ _ fun key => ?_
  by_cases inside : key ∈ entries.keys
  · obtain ⟨entry, found, rfl⟩ := List.mem_map.mp inside
    have value := there entry found
    rw [keys entry.1 inside] at value
    rw [rawget_of_mem entries distinct entry found]
    exact value
  · have missing : rawget entries' key = .nil := by
      by_contra filled
      obtain ⟨entry, found, rfl⟩ := only key filled
      rw [keys entry.1 (List.mem_map_of_mem found)] at inside
      exact inside (List.mem_map_of_mem found)
    rw [rawget_of_notMem entries key inside, missing]
    exact .refl _

theorem same_of_readsBack (value value' : Value) (storable : Storable value)
    (back : ReadsBack number2str value value') : Same value value' := by
  induction storable generalizing value' with
  | boolean v =>
    cases back
    exact .refl _
  | integer i low high =>
    cases back
    rw [narrowed_narrow i low high]
    exact .refl _
  | number bits =>
    cases back
    exact .refl _
  | string str text =>
    cases back
    exact .refl _
  | special str made =>
    cases back
    exact .refl _
  | document entries keys values ih =>
    cases back with
    | table rawlen rawlen' entries entries' array choice there only =>
      obtain rfl := Except.ok.inj choice
      refine table_same number2str false 0 rawlen' entries entries' ?_ keys.2
        (fun entry inside => ih entry inside _ (there entry inside)) only
      intro key inside
      obtain ⟨text, rfl, -⟩ := keys.1 key inside
      rfl
  | sequence n entries keys array values ih =>
    cases back with
    | table rawlen rawlen' entries entries' array' choice there only =>
      obtain rfl := Except.ok.inj (array.symm.trans choice)
      exact table_same number2str true n rawlen' entries entries'
        (fun key _ => wireKey_array number2str key) keys.2
        (fun entry inside => ih entry inside _ (there entry inside)) only

variable (border : Entries → Nat)

theorem decode_encode (entries : Entries) (keys : TextKeys entries)
    (values : ∀ entry ∈ entries, Storable entry.2) (whole : ¬HoldsTorn (.table 0 entries))
    (roomy : Roomy number2str entries) :
    ∃ value, DecodesTo number2str border entries value ∧ Same (.table 0 entries) value := by
  have storable : Storable (.table 0 entries) := .document entries keys values
  obtain ⟨item, same⟩ := storable_item number2str _ storable
  simp only [itemOf, isArray_zero] at same
  obtain ⟨fields, written, rfl⟩ := Option.map_eq_some_iff.mp same
  have small := roomy.size
  simp only [documentSize, written] at small
  have kept := storable_kept number2str _ storable whole (.table false fields)
    (by simp only [itemOf, isArray_zero, written, Option.map_some]) small
  obtain ⟨item, value, itemSame, reads, back⟩ := kept_reads number2str border _ kept
  simp only [itemOf, isArray_zero, written, Option.map_some, Option.some.injEq] at itemSame
  subst itemSame
  have decodes := decodesTo_iff number2str border entries fields value value written reads
  exact ⟨value, decodes.mpr ⟨roomy, rfl⟩, same_of_readsBack number2str _ _ storable back⟩

end

def nestedIn : Nat → Entries
  | 0 => []
  | n + 1 => [(.string [0x61], .table 0 (nestedIn n))]

example : Roomy (fun _ => []) (nestedIn 9) ∧ ¬Roomy (fun _ => []) (nestedIn 10) := by
  refine ⟨⟨by decide, by decide, by decide⟩, fun roomy => ?_⟩
  exact absurd roomy.written (by decide)

def stored : Entries :=
  [(.string [0x61], .string (lregex [0x5e, 0x78] [0x69])),
    (.string [0x62], .table 1 [(.integer 1, .string (ldate 1000))])]

theorem stored_decoded :
    ∃ value, DecodesTo (fun _ => []) (fun _ => 0) stored value ∧ Same (.table 0 stored) value := by
  refine decode_encode (fun _ => []) (fun _ => 0) stored ?_ ?_ ?_ ⟨by decide, by decide, by decide⟩
  · refine ⟨?_, by decide⟩
    simp only [Entries.keys, stored, List.map_cons, List.map_nil, List.mem_cons, List.not_mem_nil,
      or_false, forall_eq_or_imp, forall_eq]
    exact ⟨⟨_, rfl, by decide⟩, _, rfl, by decide⟩
  · simp only [stored, List.mem_cons, List.not_mem_nil, or_false, forall_eq_or_imp, forall_eq]
    refine ⟨.special _ (.regex _ _), .sequence 1 _ ⟨fun key => ?_, by decide⟩ rfl ?_⟩
    · constructor
      · intro inside
        exact ⟨1, le_rfl, le_rfl, List.mem_singleton.mp inside⟩
      · rintro ⟨i, least, most, rfl⟩
        obtain rfl : i = 1 := by omega
        exact List.mem_singleton.mpr rfl
    · simp only [List.mem_cons, List.not_mem_nil, or_false, forall_eq]
      exact .special _ (.date 1000)
  · have date : ¬Torn (ldate 1000) := by
      rintro ⟨pattern, options, same, -⟩
      exact absurd (List.cons.inj (List.cons.inj same).2).1 (by decide)
    rintro (_ | ⟨_, _, entry, inside, torn⟩)
    simp only [stored, List.mem_cons, List.not_mem_nil, or_false] at inside
    rcases inside with rfl | rfl
    · cases torn with
      | string str torn => exact absurd ((torn_lregex _ _).mp torn) (by decide)
    · cases torn with
      | table rawlen entries entry inside torn =>
        obtain rfl := List.mem_singleton.mp inside
        cases torn with
        | string str torn => exact date torn

def tornRegex : Entries := [(.string [0x61], .string (lregex [0x61, 0, 0x62] []))]

theorem tornRegex_lost :
    TextKeys tornRegex ∧ (∀ entry ∈ tornRegex, Storable entry.2) ∧
      ¬∃ value, DecodesTo (fun _ => []) (fun _ => 0) tornRegex value ∧
        Same (.table 0 tornRegex) value := by
  refine ⟨⟨?_, by decide⟩, ?_, ?_⟩
  · simp only [Entries.keys, tornRegex, List.map_cons, List.map_nil, List.mem_cons,
      List.not_mem_nil, or_false, forall_eq]
    exact ⟨_, rfl, by decide⟩
  · simp only [tornRegex, List.mem_cons, List.not_mem_nil, or_false, forall_eq]
    exact .special _ (.regex _ _)
  · rintro ⟨value, ⟨data, encoded, decodes⟩, -⟩
    have bytes : encode (fun _ => []) tornRegex =
        .ok [0x0d, 0, 0, 0, 0x0b, 0x61, 0, 0x61, 0, 0x62, 0, 0, 0] := by decide +kernel
    obtain rfl := Except.ok.inj (encoded.symm.trans bytes)
    have refused : (ldecode [0x0d, 0, 0, 0, 0x0b, 0x61, 0, 0x61, 0, 0x62, 0, 0, 0]
        (fun _ => 0) Lua.minStack 13).toOption.isNone = true := by decide +kernel
    rw [decodes 13 le_rfl] at refused
    cases refused

end Pskynet.Bson
