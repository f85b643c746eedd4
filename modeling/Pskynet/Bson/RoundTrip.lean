import Mathlib.Data.List.TakeWhile
import Pskynet.Bson.Read
import Pskynet.Bson.Written
import Pskynet.Shared.Words

set_option autoImplicit false

namespace Pskynet.Bson

open LittleEndian Slots

theorem isDigit_range {c : Char} (digit : c.isDigit) : 48 ≤ c.toNat ∧ c.toNat ≤ 57 := by
  rw [Char.isDigit, Bool.and_eq_true, decide_eq_true_eq, decide_eq_true_eq] at digit
  exact digit

theorem digit_toNat {c : Char} (digit : c.isDigit) : (UInt8.ofNat c.toNat).toNat = c.toNat := by
  have range := isDigit_range digit
  rw [UInt8.toNat_ofNat']
  omega

theorem bsonNumstr_digits (n : Nat) (byte : UInt8) (inside : byte ∈ bsonNumstr n) :
    48 ≤ byte ∧ byte ≤ 57 := by
  obtain ⟨c, digit, rfl⟩ := List.mem_map.mp inside
  have isDigit := Nat.isDigit_of_mem_toDigits (by omega) (by omega) digit
  have range := isDigit_range isDigit
  rw [UInt8.le_iff_toNat_le, UInt8.le_iff_toNat_le, digit_toNat isDigit]
  exact range

theorem bsonNumstr_ne_nil (n : Nat) : bsonNumstr n ≠ [] := by
  rw [bsonNumstr, ne_eq, List.map_eq_nil_iff]
  exact Nat.toDigits_ne_nil

theorem digitsValue_bsonNumstr (n : Nat) : digitsValue (bsonNumstr n) = n := by
  have all : (bsonNumstr n).takeWhile (fun c => 48 ≤ c ∧ c ≤ 57) = bsonNumstr n := by
    rw [List.takeWhile_eq_self_iff]
    intro byte inside
    simpa using bsonNumstr_digits n byte inside
  have fold (cs : List Char) (digits : ∀ c ∈ cs, c.isDigit) (start : Nat) :
      (cs.map fun c => UInt8.ofNat c.toNat).foldl (fun n c => 10 * n + (c.toNat - 48)) start =
        Nat.ofDigitChars 10 cs start := by
    induction cs generalizing start with
    | nil => rfl
    | cons c cs ih =>
      rw [List.map_cons, List.foldl_cons, digit_toNat (digits c (by simp)), ih]
      · rfl
      · exact fun other inside => digits other (by simp [inside])
  rw [digitsValue, all, bsonNumstr, fold]
  · exact Nat.ofDigitChars_ten_toDigits
  · exact fun c inside => Nat.isDigit_of_mem_toDigits (by omega) (by omega) inside

theorem strtol_bsonNumstr (n : Nat) (small : n < 2 ^ 63) : strtol (bsonNumstr n) = n := by
  obtain ⟨first, rest, same⟩ := List.exists_cons_of_ne_nil (bsonNumstr_ne_nil n)
  have digit := bsonNumstr_digits n first (by rw [same]; simp)
  rw [UInt8.le_iff_toNat_le, UInt8.le_iff_toNat_le] at digit
  have dash : first ≠ 45 := by
    rintro rfl
    exact absurd digit.1 (by decide)
  have plus : first ≠ 43 := by
    rintro rfl
    exact absurd digit.1 (by decide)
  have start : (bsonNumstr n).dropWhile isspace = bsonNumstr n := by
    have filled : ¬isspace first = true := by
      rw [isspace, decide_eq_true_eq, UInt8.le_iff_toNat_le, UInt8.le_iff_toNat_le,
        ← UInt8.toNat_inj]
      change ¬(first.toNat = 32 ∨ 9 ≤ first.toNat ∧ first.toNat ≤ 13)
      have low : 48 ≤ first.toNat := digit.1
      omega
    rw [same, List.dropWhile_cons_of_neg filled]
  unfold strtol
  rw [start]
  split
  · exact absurd (List.cons.inj (same.symm.trans ‹_›)).1 dash
  · exact absurd (List.cons.inj (same.symm.trans ‹_›)).1 plus
  · rw [digitsValue_bsonNumstr]
    omega

section

variable (number2str : UInt64 → List UInt8)

-- The key that a key of a table is read back as: the elements of an array keep theirs, and a
-- document has texts.
def wireKey (array : Bool) (key : Key) : Key :=
  match array, elementKey number2str false key with
  | false, .ok text => .string text
  | _, _ => key

def KeyKept (array : Bool) (key : Key) : Prop :=
  if array then ∃ i : Int64, key = .integer i ∧ -2 ^ 31 ≤ i.toInt ∧ i.toInt < 2 ^ 31
  else ∃ text, elementKey number2str false key = .ok text ∧ 0 ∉ text

theorem index_read (i : Int64) (low : -2 ^ 31 ≤ i.toInt) (high : i.toInt < 2 ^ 31) :
    Int64.ofInt (CInt.toInt ((i.toInt32.toUInt32 - 1).toNat + 1)) = i := by
  have half := Words.toNat_low_half i
  have before : (i.toInt32.toUInt32 - 1).toNat = (2 ^ 32 - 1 + i.toInt32.toUInt32.toNat) % 2 ^ 32 :=
    UInt32.toNat_sub _ _
  have value : CInt.toInt ((i.toInt32.toUInt32 - 1).toNat + 1) = CInt.toInt i.toInt := by
    refine CInt.toInt_congr ?_
    rw [before, half]
    rcases lt_or_ge i.toInt 0 with negative | nonneg
    · have same := Words.toNat_of_neg i negative
      omega
    · have same := Words.toNat_of_nonneg i nonneg
      omega
  rw [value, CInt.toInt_eq low high, Int64.ofInt_toInt]

theorem fieldKey_elementKey (array : Bool) (key : Key) (kept : KeyKept number2str array key) :
    ∃ text, elementKey number2str array key = .ok text ∧ 0 ∉ text ∧
      fieldKey array text = .ok (wireKey number2str array key) := by
  cases array with
  | false =>
    obtain ⟨text, same, clean⟩ := kept
    have wire : wireKey number2str false key = .string text := by
      simp only [wireKey, same]
    exact ⟨text, same, clean, wire ▸ rfl⟩
  | true =>
    obtain ⟨i, rfl, low, high⟩ := kept
    refine ⟨_, rfl, ?_, ?_⟩
    · intro inside
      exact absurd (bsonNumstr_digits _ 0 inside).1 (by decide)
    · have small := (i.toInt32.toUInt32 - 1).toNat_lt
      have value := strtol_bsonNumstr (i.toInt32.toUInt32 - 1).toNat (by omega)
      rw [fieldKey, if_pos rfl, value, if_neg (by omega), index_read i low high]
      rfl

end

def plain : List UInt8 → Bool
  | 0 :: _ :: _ => false
  | _ => true

inductive Special : List UInt8 → Prop where
  | binary (bytes : List UInt8) : Special (lbinary bytes)
  | objectid (id : List UInt8) (size : id.length = 12) : Special (0 :: bsonObjectid :: id)
  | date (d : Int64) : Special (ldate d)
  | timestamp (d : Int64) (inc : UInt32) : Special (ltimestamp d inc)
  | regex (pattern options : List UInt8) : Special (lregex pattern options)
  | null : Special null
  | minkey : Special minkey
  | maxkey : Special maxkey

def Torn (str : List UInt8) : Prop :=
  ∃ pattern options, str = lregex pattern options ∧ 0 ∈ pattern ++ options

section

variable (number2str : UInt64 → List UInt8)

inductive Kept : Value → Prop where
  | boolean (v : Bool) : Kept (.boolean v)
  | integer (i : Int64) : Kept (.integer i)
  | number (bits : UInt64) : Kept (.number bits)
  | string (str : List UInt8) (text : plain str) : Kept (.string str)
  | special (str : List UInt8) (made : Special str) (whole : ¬Torn str) : Kept (.string str)
  | table (rawlen : Nat) (entries : Entries) (array : Bool)
      (choice : isArray rawlen entries = .ok array)
      (keys : ∀ entry ∈ entries, KeyKept number2str array entry.1)
      (distinct : (entries.map fun entry => wireKey number2str array entry.1).Nodup)
      (values : ∀ entry ∈ entries, Kept entry.2) : Kept (.table rawlen entries)

def narrowed (i : Int64) : Int64 := if fitsInt32 i then i.toInt32.toInt64 else i

inductive ReadsBack : Value → Value → Prop where
  | boolean (v : Bool) : ReadsBack (.boolean v) (.boolean v)
  | integer (i : Int64) : ReadsBack (.integer i) (.integer (narrowed i))
  | number (bits : UInt64) : ReadsBack (.number bits) (.number bits)
  | string (str : List UInt8) : ReadsBack (.string str) (.string str)
  | table (rawlen rawlen' : Nat) (entries entries' : Entries) (array : Bool)
      (choice : isArray rawlen entries = .ok array)
      (there : ∀ entry ∈ entries,
        ReadsBack entry.2 (rawget entries' (wireKey number2str array entry.1)))
      (only : ∀ key, rawget entries' key ≠ .nil →
        ∃ entry ∈ entries, wireKey number2str array entry.1 = key) :
      ReadsBack (.table rawlen entries) (.table rawlen' entries')

variable (border : Entries → Nat)

def ItemReads (value : Value) : Prop :=
  ∃ item value', itemOf number2str value = some item ∧ Reads border item value' ∧
    ReadsBack number2str value value'

theorem leaf_reads {value value' : Value} {type : UInt8} {payload : List UInt8}
    (item : itemOf number2str value = some (.leaf type payload)) (leaf : Leaf type payload value')
    (back : ReadsBack number2str value value') : ItemReads number2str border value :=
  ⟨_, value', item, .leaf leaf, back⟩

theorem integer_reads (i : Int64) : ItemReads number2str border (.integer i) := by
  have item : itemOf number2str (.integer i) = some (integerItem i) := rfl
  have back : ReadsBack number2str _ _ := .integer i
  unfold integerItem at item
  unfold narrowed at back
  split_ifs at item back with narrow
  · have leaf := Leaf.int32 i.toInt32.toUInt32
    rw [Int32.toInt32_toUInt32] at leaf
    exact leaf_reads number2str border item leaf back
  · exact leaf_reads number2str border item (.int64 i) back

theorem plain_reads (str : List UInt8) (text : plain str) :
    ItemReads number2str border (.string str) := by
  have item : itemOf number2str (.string str) = some (.leaf bsonString (textBytes str)) := by
    change stringItem str = _
    unfold stringItem
    split
    · exact nomatch text
    · rfl
  exact leaf_reads number2str border item (.string str) (.string str)

theorem splitLast_append (pattern options : List UInt8) (clean : 0 ∉ options) :
    splitLast (pattern ++ [0] ++ options) = some (pattern, options) := by
  have behind : ((pattern ++ [0] ++ options).reverse.takeWhile (· ≠ 0)).reverse = options := by
    have all : ∀ byte ∈ options.reverse, (decide (byte ≠ 0)) = true := by
      intro byte inside
      rw [decide_eq_true_eq]
      rintro rfl
      exact clean (List.mem_reverse.mp inside)
    rw [List.reverse_append, List.reverse_append, List.takeWhile_append_of_pos all]
    simp
  have size : (pattern ++ [0] ++ options).length - options.length - 1 = pattern.length := by
    simp
    omega
  unfold splitLast
  simp only [behind, size]
  rw [if_neg (by simp; omega), List.append_assoc, List.take_left]

theorem word_bytes (v : UInt32) (rest : List UInt8) : word (bytes 4 v.toNat ++ rest) = v := by
  have first : (bytes 4 v.toNat ++ rest).take 4 = bytes 4 v.toNat :=
    List.take_left' (length_bytes 4 _)
  rw [word, first, value_bytes_of_lt 4 _ v.toNat_lt, UInt32.ofNat_toNat]

theorem date_seconds (v : UInt32) :
    (Int64.ofNat (v.toNat * 1000) / 1000).toInt32.toUInt32 = v := by
  have bound := v.toNat_lt
  have quotient : Int64.ofNat (v.toNat * 1000) / 1000 = Int64.ofNat v.toNat := by
    have divided := Int64.ofNat_div (a := v.toNat * 1000) (b := 1000) (by omega) (by omega)
    rw [Nat.mul_div_cancel _ (by omega)] at divided
    exact divided.symm
  rw [quotient, Int64.toInt32_ofNat', Int32.toUInt32_ofNat', UInt32.ofNat_toNat]

theorem special_reads (str : List UInt8) (made : Special str) (whole : ¬Torn str) :
    ItemReads number2str border (.string str) := by
  have back : ReadsBack number2str _ _ := .string str
  have special (subt : UInt8) (rest : List UInt8) {payload : List UInt8} (bytes : subtypeBytes subt rest = some payload)
      (leaf : Leaf subt payload (.string str)) (same : str = 0 :: subt :: rest) :
      ItemReads number2str border (.string str) := by
    refine leaf_reads number2str border (?_ : stringItem str = _) leaf back
    rw [same]
    change (subtypeBytes subt rest).map (Item.leaf subt) = _
    rw [bytes]
    rfl
  cases made with
  | binary bytes =>
    refine special bsonBinary (0 :: bytes) ?_ (.binary 0 bytes) rfl
    have length : UInt32.ofNat (bytes.length + 1) - 1 = UInt32.ofNat bytes.length := by
      rw [UInt32.ofNat_add]
      exact UInt32.add_sub_cancel _ _
    change some (LittleEndian.bytes 4 (UInt32.ofNat (bytes.length + 1) - 1).toNat ++ (0 :: bytes)) = _
    rw [length, bytes_ofNat]
  | objectid id size =>
    refine special bsonObjectid id ?_ (.objectid id size) rfl
    unfold subtypeBytes
    rw [if_neg (by decide), if_neg (by simp [size]), if_pos (.inl rfl)]
  | date d =>
    have leaf := Leaf.date (Int64.ofNat (d.toInt32.toUInt32.toNat * 1000))
    rw [date_seconds] at leaf
    refine special bsonDate _ ?_ leaf rfl
    have value := word_bytes d.toInt32.toUInt32 []
    rw [List.append_nil] at value
    have size : ¬(bytes 4 d.toInt32.toUInt32.toNat).length ≠ 4 := by simp
    unfold subtypeBytes
    rw [if_neg (by decide), if_neg (by simp [bsonDate, bsonObjectid]), if_neg (by decide),
      if_pos rfl, if_neg size, value]
  | timestamp d inc =>
    refine special bsonTimestamp _ ?_ (.timestamp inc d.toInt32.toUInt32) rfl
    have second := word_bytes d.toInt32.toUInt32 []
    rw [List.append_nil] at second
    have size : ¬(bytes 4 inc.toNat ++ bytes 4 d.toInt32.toUInt32.toNat).length ≠ 8 := by simp
    have rest : (bytes 4 inc.toNat ++ bytes 4 d.toInt32.toUInt32.toNat).drop 4 =
        bytes 4 d.toInt32.toUInt32.toNat := List.drop_left' (length_bytes 4 _)
    unfold subtypeBytes
    rw [if_neg (by decide), if_neg (by simp [bsonTimestamp, bsonObjectid]), if_neg (by decide),
      if_neg (by decide), if_pos rfl, if_neg size, rest, second, word_bytes]
  | regex pattern options =>
    have clean : 0 ∉ pattern ++ options := fun torn => whole ⟨pattern, options, rfl, torn⟩
    refine special bsonRegex _ ?_ (.regex pattern options clean) rfl
    rw [List.mem_append, not_or] at clean
    unfold subtypeBytes
    rw [if_neg (by decide), if_neg (by simp [bsonRegex, bsonObjectid]), if_neg (by decide),
      if_neg (by decide), if_neg (by decide), if_pos rfl, List.dropLast_concat,
      splitLast_append pattern options clean.2]
    rfl
  | null => exact leaf_reads number2str border rfl (.special _ (by simp)) back
  | minkey => exact leaf_reads number2str border rfl (.special _ (by simp)) back
  | maxkey => exact leaf_reads number2str border rfl (.special _ (by simp)) back

theorem storeAll_eq (pairs : Entries) (distinct : (pairs.map (·.1)).Nodup) :
    storeAll pairs = pairs := by
  suffices general : ∀ pairs entries : Entries, ((entries ++ pairs).map (·.1)).Nodup →
      pairs.foldl (fun entries pair => rawset entries pair.1 pair.2) entries = entries ++ pairs from
    general pairs [] distinct
  intro pairs
  induction pairs with
  | nil => exact fun entries _ => (List.append_nil entries).symm
  | cons pair pairs ih =>
    intro entries distinct
    have fresh : rawset entries pair.1 pair.2 = entries ++ [pair] := by
      have others : entries.filter (fun entry => entry.1 ≠ pair.1) = entries := by
        rw [List.filter_eq_self]
        intro entry inside
        rw [decide_eq_true_eq]
        intro same
        rw [List.map_append, List.nodup_append] at distinct
        exact distinct.2.2 _ (List.mem_map_of_mem inside) pair.1 (by simp) same
      rw [rawset, others]
    rw [List.foldl_cons, fresh, ih _ (by simpa using distinct), List.append_assoc]
    rfl

theorem entries_read (array : Bool) (entries : Entries)
    (keys : ∀ entry ∈ entries, KeyKept number2str array entry.1)
    (values : ∀ entry ∈ entries, ItemReads number2str border entry.2) :
    ∃ (fields : Fields) (pairs : Entries), fieldsOf number2str array entries = some fields ∧
      List.Forall₂ (fun field pair => 0 ∉ field.1 ∧ fieldKey array field.1 = .ok pair.1)
        fields pairs ∧
      List.Forall₂ (Reads border) (fields.map (·.2)) (pairs.map (·.2)) ∧
      List.Forall₂ (fun entry pair => pair.1 = wireKey number2str array entry.1 ∧
        ReadsBack number2str entry.2 pair.2) entries pairs := by
  induction entries with
  | nil => exact ⟨[], [], rfl, .nil, .nil, .nil⟩
  | cons entry entries ih =>
    obtain ⟨key, value⟩ := entry
    obtain ⟨fields, pairs, written, texts, reads, back⟩ :=
      ih (fun other inside => keys other (by simp [inside]))
        fun other inside => values other (by simp [inside])
    obtain ⟨text, same, clean, wire⟩ := fieldKey_elementKey number2str array key (keys (key, value) (by simp))
    obtain ⟨item, value', itemSame, itemReads, itemBack⟩ := values (key, value) (by simp)
    refine ⟨(text, item) :: fields, (wireKey number2str array key, value') :: pairs, ?_,
      .cons ⟨clean, wire⟩ texts, .cons itemReads reads, .cons ⟨rfl, itemBack⟩ back⟩
    simp only at itemSame
    simp only [fieldsOf, same, itemSame, written, Option.map_some]

theorem table_reads (array : Bool) (entries : Entries)
    (keys : ∀ entry ∈ entries, KeyKept number2str array entry.1)
    (distinct : (entries.map fun entry => wireKey number2str array entry.1).Nodup)
    (values : ∀ entry ∈ entries, ItemReads number2str border entry.2) :
    ∃ fields pairs, fieldsOf number2str array entries = some fields ∧
      Reads border (.table array fields) (.table (border pairs) pairs) ∧
      (∀ entry ∈ entries,
        ReadsBack number2str entry.2 (rawget pairs (wireKey number2str array entry.1))) ∧
      ∀ key, rawget pairs key ≠ .nil →
        ∃ entry ∈ entries, wireKey number2str array entry.1 = key := by
  obtain ⟨fields, pairs, written, texts, reads, back⟩ :=
    entries_read number2str border array entries keys values
  have names : pairs.map (·.1) = entries.map fun entry => wireKey number2str array entry.1 := by
    have same : List.Forall₂ (· = ·) (entries.map fun entry => wireKey number2str array entry.1)
        (pairs.map (·.1)) := by
      rw [List.forall₂_map_left_iff, List.forall₂_map_right_iff]
      exact back.imp fun _ _ both => both.1.symm
    rw [List.forall₂_eq_eq_eq] at same
    exact same.symm
  rw [← names] at distinct
  have stored := storeAll_eq pairs distinct
  have table := Reads.table array fields pairs texts reads
  rw [stored] at table
  obtain ⟨forward, backward⟩ := forall₂_exists back
  refine ⟨fields, pairs, written, table, ?_, ?_⟩
  · intro entry inside
    obtain ⟨pair, found, same, readsBack⟩ := forward entry inside
    rw [← same, rawget_of_mem pairs distinct pair found]
    exact readsBack
  · intro key filled
    rcases rawget_cases pairs key with empty | ⟨pair, found, rfl, -⟩
    · exact absurd empty filled
    · obtain ⟨entry, inside, same, -⟩ := backward pair found
      exact ⟨entry, inside, same.symm⟩

theorem kept_reads (value : Value) (kept : Kept number2str value) :
    ItemReads number2str border value := by
  induction kept with
  | boolean v =>
    have leaf := Leaf.boolean (if v then 1 else 0)
    have same : decide ((if v then (1 : UInt8) else 0) ≠ 0) = v := by cases v <;> rfl
    rw [same] at leaf
    exact leaf_reads number2str border rfl leaf (.boolean v)
  | integer i => exact integer_reads number2str border i
  | number bits => exact leaf_reads number2str border rfl (.real bits) (.number bits)
  | string str text => exact plain_reads number2str border str text
  | special str made whole => exact special_reads number2str border str made whole
  | table rawlen entries array choice keys distinct values ih =>
    obtain ⟨fields, pairs, written, reads, there, only⟩ :=
      table_reads number2str border array entries keys distinct ih
    refine ⟨.table array fields, _, ?_, reads, .table _ _ _ _ array choice there only⟩
    simp only [itemOf, choice, written, Option.map_some]

-- `decode(encode(t))` is `value`, with as many turns as the document has bytes. Lua keeps
-- `LUA_MINSTACK` slots free for each of the two.
def DecodesTo (entries : Entries) (value : Value) : Prop :=
  ∃ data, encode number2str entries = .ok data ∧
    ∀ turns, data.length ≤ turns → ldecode data border Lua.minStack turns = .ok value

def documentSize (entries : Entries) : Nat :=
  match fieldsOf number2str false entries with
  | some fields => (enclosed (fieldsBytes fields)).length
  | none => 0

def documentSlots (entries : Entries) : Nat :=
  match fieldsOf number2str false entries with
  | some fields => (Item.table false fields).slots
  | none => 0

structure Roomy (entries : Entries) : Prop where
  size : documentSize number2str entries ≤ 2 ^ 30
  written : entriesSlots false entries ≤ Lua.minStack
  read : documentSlots number2str entries ≤ Lua.minStack

theorem decodesTo_iff (entries : Entries) (fields : Fields) (value other : Value)
    (written : fieldsOf number2str false entries = some fields)
    (reads : Reads border (.table false fields) value) :
    DecodesTo number2str border entries other ↔ Roomy number2str entries ∧ other = value := by
  have done (small : (enclosed (fieldsBytes fields)).length ≤ 2 ^ 30) :=
    ldecode_reads border fields value reads (by omega) Lua.minStack
  constructor
  · rintro ⟨data, encoded, decodes⟩
    obtain ⟨bytes, packed, kept⟩ := Outcome.bind_ok.mp encoded
    obtain ⟨above, rfl⟩ := within_ok kept
    obtain ⟨fields', written', rfl, small⟩ := (lencode_ok number2str entries bytes).mp packed
    obtain rfl := Option.some.inj (written.symm.trans written')
    have decoded := decodes _ le_rfl
    rw [done small _ le_rfl] at decoded
    obtain ⟨below, rfl⟩ := within_ok decoded
    refine ⟨⟨?_, above, ?_⟩, rfl⟩
    · rwa [documentSize, written]
    · rwa [documentSlots, written]
  · rintro ⟨⟨size, above, below⟩, rfl⟩
    rw [documentSize, written] at size
    rw [documentSlots, written] at below
    have packed := (lencode_ok number2str entries _).mpr ⟨fields, written, rfl, size⟩
    refine ⟨_, Outcome.bind_ok.mpr ⟨_, packed, within_of_le above⟩, fun turns enough => ?_⟩
    rw [done size turns enough, within_of_le below]

theorem document_decodes (entries : Entries)
    (keys : ∀ entry ∈ entries, KeyKept number2str false entry.1)
    (distinct : (entries.map fun entry => wireKey number2str false entry.1).Nodup)
    (values : ∀ entry ∈ entries, Kept number2str entry.2) :
    ∃ pairs, (∀ other, DecodesTo number2str border entries other ↔
        Roomy number2str entries ∧ other = .table (border pairs) pairs) ∧
      (∀ entry ∈ entries,
        ReadsBack number2str entry.2 (rawget pairs (wireKey number2str false entry.1))) ∧
      ∀ key, rawget pairs key ≠ .nil →
        ∃ entry ∈ entries, wireKey number2str false entry.1 = key := by
  obtain ⟨fields, pairs, written, reads, there, only⟩ := table_reads number2str border false entries
    keys distinct fun entry inside => kept_reads number2str border entry.2 (values entry inside)
  exact ⟨pairs, fun other => decodesTo_iff number2str border entries fields _ other written reads,
    there, only⟩

end

end Pskynet.Bson
