import Pskynet.Bson.Storable

set_option autoImplicit false

namespace Pskynet.Bson

-- What `lua_rawlen` and `lua_next` promise: a border of the table, and each key once.
structure Laid (rawlen : Nat) (entries : Entries) : Prop where
  last : 0 < rawlen → .integer (Int64.ofNat rawlen) ∈ entries.keys
  next : .integer (Int64.ofNat (rawlen + 1)) ∉ entries.keys
  distinct : entries.keys.Nodup

def IsSequence (entries : Entries) : Prop := ∃ n, 1 ≤ n ∧ SequenceKeys n entries

def BorderLast (rawlen : Nat) (entries : Entries) : Prop :=
  0 < rawlen ∧ entries.keys.getLast? = some (.integer (Int64.ofNat rawlen))

theorem luaNext_last (entries : Entries) (key : Key) (inside : key ∈ entries.keys)
    (distinct : entries.keys.Nodup) :
    ∃ next, luaNext entries key = .ok next ∧
      (next = none ↔ entries.keys.getLast? = some key) := by
  induction entries with
  | nil => simp [Entries.keys] at inside
  | cons entry entries ih =>
    obtain ⟨found, value⟩ := entry
    rw [Entries.keys, List.map_cons] at inside distinct ⊢
    rw [List.nodup_cons] at distinct
    rw [luaNext]
    split_ifs with here
    · subst here
      refine ⟨_, rfl, ?_⟩
      cases entries with
      | nil => simp
      | cons second entries =>
        have later : (List.map (fun entry => entry.1) (second :: entries)).getLast? ≠ some found := by
          intro last
          exact distinct.1 (List.mem_of_getLast? last)
        rw [List.map_cons, List.getLast?_cons_cons, ← List.map_cons]
        simp only [List.head?_cons, reduceCtorEq, false_iff]
        exact later
    · have there : key ∈ Entries.keys entries :=
        (List.mem_cons.mp inside).resolve_left (Ne.symm here)
      obtain ⟨next, same, last⟩ := ih there distinct.2
      refine ⟨next, same, last.trans ?_⟩
      cases entries with
      | nil => simp [Entries.keys] at there
      | cons second entries =>
        rw [List.map_cons, List.getLast?_cons_cons]
        rfl

theorem isArray_laid (rawlen : Nat) (entries : Entries) (laid : Laid rawlen entries) :
    ∃ array, isArray rawlen entries = .ok array ∧ (array = true ↔ BorderLast rawlen entries) := by
  rw [isArray]
  split_ifs with some_
  · obtain ⟨next, same, last⟩ := luaNext_last entries _ (laid.last some_) laid.distinct
    rw [same]
    refine ⟨_, rfl, ?_⟩
    rw [Option.isNone_iff_eq_none, last]
    exact ⟨fun border => ⟨some_, border⟩, fun border => border.2⟩
  · exact ⟨false, rfl, by simp [BorderLast, some_]⟩

section

variable (number2str : UInt64 → List UInt8)

inductive Wanted (entries : Entries) : Item → Prop where
  | array (n : Nat) (some_ : 1 ≤ n) (keys : SequenceKeys n entries) (fields : Fields)
      (elements : List.Forall₂ (fun entry field => (∃ i, 1 ≤ i ∧ i ≤ n ∧
        entry.1 = .integer (Int64.ofNat i) ∧ field.1 = bsonNumstr (i - 1)) ∧
        itemOf number2str entry.2 = some field.2) entries fields) :
      Wanted entries (.table true fields)
  | document (other : ¬IsSequence entries) (fields : Fields)
      (elements : List.Forall₂ (fun entry field => elementKey number2str false entry.1 = .ok field.1 ∧
        itemOf number2str entry.2 = some field.2) entries fields) :
      Wanted entries (.table false fields)

theorem fieldsOf_iff (array : Bool) (entries : Entries) (fields : Fields) :
    fieldsOf number2str array entries = some fields ↔
      List.Forall₂ (fun entry field => elementKey number2str array entry.1 = .ok field.1 ∧
        itemOf number2str entry.2 = some field.2) entries fields := by
  induction entries generalizing fields with
  | nil => simp [fieldsOf, eq_comm]
  | cons entry entries ih =>
    obtain ⟨key, value⟩ := entry
    rw [List.forall₂_cons_left_iff]
    simp only [fieldsOf]
    cases text : elementKey number2str array key with
    | error fault => simp
    | ok text' =>
      cases item : itemOf number2str value with
      | none => simp
      | some item' =>
        simp only [Option.map_eq_some_iff, ih]
        constructor
        · rintro ⟨rest, elements, rfl⟩
          exact ⟨_, rest, ⟨rfl, rfl⟩, elements, rfl⟩
        · rintro ⟨⟨name, value'⟩, rest, ⟨one, two⟩, elements, rfl⟩
          obtain rfl := Except.ok.inj one
          obtain rfl := Option.some.inj two
          exact ⟨rest, elements, rfl⟩

theorem length_fields_le (fields : Fields) : fields.length ≤ (fieldsBytes fields).length := by
  induction fields with
  | nil => exact Nat.zero_le _
  | cons field fields ih =>
    rw [fieldsBytes_cons, fieldBytes, List.length_cons]
    simp only [List.length_append, List.length_cons]
    omega

theorem elementKey_index (i : Nat) (least : 1 ≤ i) (small : i < 2 ^ 32) :
    elementKey number2str true (.integer (Int64.ofNat i)) = .ok (bsonNumstr (i - 1)) := by
  have before : (UInt32.ofNat i - 1).toNat = i - 1 := by
    rw [UInt32.toNat_sub, UInt32.toNat_ofNat']
    change (2 ^ 32 - 1 + i % 2 ^ 32) % 2 ^ 32 = i - 1
    omega
  rw [elementKey, Int64.toInt32_ofNat', Int32.toUInt32_ofNat', before]

theorem wanted_itemOf (rawlen : Nat) (entries : Entries) (laid : Laid rawlen entries) (item : Item)
    (wanted : Wanted number2str entries item) (small : item.bytes.length < 2 ^ 30)
    (agree : BorderLast rawlen entries ↔ IsSequence entries) :
    itemOf number2str (.table rawlen entries) = some item := by
  obtain ⟨array, choice, border⟩ := isArray_laid rawlen entries laid
  cases wanted with
  | array n some_ keys fields elements =>
    obtain rfl : array = true := border.mpr (agree.mpr ⟨n, some_, keys⟩)
    rw [Item.bytes, length_enclosed] at small
    have count := length_fields_le fields
    have same := elements.length_eq
    have bound : n < 2 ^ 32 := by
      by_contra large
      have length := sequence_length n (2 ^ 32) entries keys (not_lt.mp large) (by omega)
      omega
    have written : fieldsOf number2str true entries = some fields := by
      rw [fieldsOf_iff]
      refine elements.imp ?_
      rintro entry field ⟨⟨i, least, most, key, text⟩, value⟩
      refine ⟨?_, value⟩
      rw [key, text]
      exact elementKey_index number2str i least (by omega)
    simp only [itemOf, choice, written, Option.map_some]
  | document other fields elements =>
    obtain rfl : array = false := by
      by_contra isTrue
      exact other (agree.mp (border.mp (by simpa using isTrue)))
    have written := (fieldsOf_iff number2str false entries fields).mpr elements
    simp only [itemOf, choice, written, Option.map_some]

theorem wanted_type (entries : Entries) (item : Item) (wanted : Wanted number2str entries item) :
    item.type = bsonArray ↔ IsSequence entries := by
  cases wanted with
  | array n some_ keys fields elements => exact ⟨fun _ => ⟨n, some_, keys⟩, fun _ => rfl⟩
  | document other fields elements =>
    have document : (Item.table false fields).type ≠ bsonArray := by
      simp [Item.type, bsonArray, bsonDocument]
    exact ⟨fun wrong => absurd wrong document, fun sequence => absurd sequence other⟩

theorem itemOf_type (rawlen : Nat) (entries : Entries) (laid : Laid rawlen entries) (item : Item)
    (made : itemOf number2str (.table rawlen entries) = some item) :
    item.type = bsonArray ↔ BorderLast rawlen entries := by
  obtain ⟨array, choice, border⟩ := isArray_laid rawlen entries laid
  simp only [itemOf, choice] at made
  obtain ⟨fields, -, rfl⟩ := Option.map_eq_some_iff.mp made
  rw [← border]
  cases array <;> simp [Item.type, bsonArray, bsonDocument]

theorem layout_iff (rawlen : Nat) (entries : Entries) (laid : Laid rawlen entries) :
    (∀ b key item, b.Sound → Wanted number2str entries item →
        b.size + (fieldBytes key item).length < 2 ^ 30 →
        ∃ b', appendOne number2str b key (.table rawlen entries) = .ok b' ∧
          b'.ptr = b.ptr ++ fieldBytes key item) ↔
      ∀ item, Wanted number2str entries item → item.bytes.length + 2 < 2 ^ 30 →
        (BorderLast rawlen entries ↔ IsSequence entries) := by
  have length (key : List UInt8) (item : Item) :
      (fieldBytes key item).length = key.length + 2 + item.bytes.length := by
    rw [fieldBytes]
    simp
    omega
  constructor
  · intro property item wanted small
    obtain ⟨b', done, bytes⟩ := property bsonCreate [] item bsonCreate_sound wanted (by
      rw [length]
      exact (Nat.zero_add _).trans_lt (by simpa [Nat.add_comm] using small))
    have writes := appendOne_writes number2str (.table rawlen entries) []
    cases made : itemOf number2str (.table rawlen entries) with
    | none =>
      rw [made] at writes
      obtain ⟨fault, failed⟩ := writes bsonCreate
      cases failed.symm.trans done
    | some other =>
      rw [made] at writes
      have written := ((writes bsonCreate bsonCreate_sound).right b' done).2
      have types := (List.cons.inj (bytes.symm.trans written)).1
      rw [← itemOf_type number2str rawlen entries laid other made,
        ← wanted_type number2str entries item wanted, types]
  · intro agree b key item sound wanted room
    rw [length] at room
    have made := wanted_itemOf number2str rawlen entries laid item wanted (by omega)
      (agree item wanted (by omega))
    have writes := appendOne_writes number2str (.table rawlen entries) key
    rw [made] at writes
    obtain ⟨b', done⟩ := (writes b sound).enough (by rw [length]; omega)
    exact ⟨b', done, ((writes b sound).right b' done).2⟩

end

def reversed : Entries := [(.integer 2, .boolean true), (.integer 1, .boolean true)]

theorem reversed_layout :
    (∀ b key item, b.Sound → Wanted (fun _ => []) reversed item →
        b.size + (fieldBytes key item).length < 2 ^ 30 →
        ∃ b', appendOne (fun _ => []) b key (.table 2 reversed) = .ok b' ∧
          b'.ptr = b.ptr ++ fieldBytes key item) ↔
      ∀ item, Wanted (fun _ => []) reversed item → item.bytes.length + 2 < 2 ^ 30 →
        (BorderLast 2 reversed ↔ IsSequence reversed) :=
  layout_iff (fun _ => []) 2 reversed ⟨fun _ => by decide, by decide, by decide⟩

def mixed : Entries := [(.string [0x78], .boolean true), (.integer 1, .boolean true)]

theorem mixed_refused :
    Laid 1 mixed ∧ ¬IsSequence mixed ∧
      appendOne (fun _ => []) bsonCreate [0x61] (.table 1 mixed) =
        .error (.error "Invalid array key type : string") ∧
      ¬∀ b key item, b.Sound → Wanted (fun _ => []) mixed item →
        b.size + (fieldBytes key item).length < 2 ^ 30 →
        ∃ b', appendOne (fun _ => []) b key (.table 1 mixed) = .ok b' ∧
          b'.ptr = b.ptr ++ fieldBytes key item := by
  have other : ¬IsSequence mixed := by
    rintro ⟨n, -, keys, -⟩
    obtain ⟨i, -, -, wrong⟩ := (keys (.string [0x78])).mp (by decide)
    exact nomatch wrong
  have refused : appendOne (fun _ => []) bsonCreate [0x61] (.table 1 mixed) =
      .error (.error "Invalid array key type : string") := rfl
  refine ⟨⟨fun _ => by decide, by decide, by decide⟩, other, refused, ?_⟩
  intro property
  have wanted : Wanted (fun _ => []) mixed (.table false
      [([0x78], .leaf bsonBoolean [1]), ([0x31], .leaf bsonBoolean [1])]) :=
    .document other _ (.cons ⟨rfl, rfl⟩ (.cons ⟨by decide, rfl⟩ .nil))
  obtain ⟨b', done, -⟩ := property bsonCreate [0x61] _ bsonCreate_sound wanted (by decide)
  exact nomatch refused.symm.trans done

end Pskynet.Bson
