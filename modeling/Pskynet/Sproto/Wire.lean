import Pskynet.Shared.Outcome
import Pskynet.Sproto.Conform
import Pskynet.Sproto.Integers

set_option autoImplicit false

open Outcome

namespace Pskynet.Sproto

open Lua Slots

abbrev Payload := Nat → Entries → List UInt8 → Prop

inductive ItemWire (payload : Payload) (field : Field) : LuaValue → Item → Prop
  | narrow (v : Int64) (type : field.type = .integer) (narrow : Narrow v) :
      ItemWire payload field (.scalar (.integer v)) (.word (low v))
  | wide (v : Int64) (type : field.type = .integer) (wide : ¬Narrow v) :
      ItemWire payload field (.scalar (.integer v)) (.qword v.toUInt64)
  | boolean (v : Bool) (type : field.type = .boolean) :
      ItemWire payload field (.scalar (.boolean v)) (.word (if v then 1 else 0))
  | string (str : List UInt8) (type : field.type = .string) :
      ItemWire payload field (.scalar (.string str)) (.bytes str)
  | struct (rawlen : Nat) (entries : Entries) (bytes : List UInt8) (type : field.type = .struct)
      (written : payload field.st entries bytes) :
      ItemWire payload field (.table rawlen entries) (.bytes bytes)

def integerValue (v : Int64) : LuaValue := .scalar (.integer v)

def booleanValue (v : Bool) : LuaValue := .scalar (.boolean v)

def booleanByte (v : Bool) : UInt8 := if v then 1 else 0

inductive ArrayWire (payload : Payload) (field : Field) : List LuaValue → List UInt8 → Prop
  | integers (values : List Int64) (type : field.type = .integer) :
      ArrayWire payload field (values.map integerValue)
        (UInt8.ofNat (arrayWidth values) :: arrayBytes values)
  | booleans (values : List Bool) (type : field.type = .boolean) :
      ArrayWire payload field (values.map booleanValue) (values.map booleanByte)
  | objects (values : List LuaValue) (payloads : List (List UInt8))
      (type : field.type = .string ∨ field.type = .struct)
      (items : List.Forall₂ (fun value bytes => ItemWire payload field value (.bytes bytes))
        values payloads) :
      ArrayWire payload field values (payloads.flatMap fillSize)

inductive FieldWire (schema : Schema) (payload : Payload) (field : Field) :
    LuaValue → Nat → List UInt8 → Prop
  | small (value : LuaValue) (v : UInt32) (one : field.array = false)
      (item : ItemWire payload field value (.word v)) (fits : v < 0x7fff) :
      FieldWire schema payload field value ((v.toNat + 1) * 2) []
  | word (value : LuaValue) (v : UInt32) (one : field.array = false)
      (item : ItemWire payload field value (.word v)) (large : ¬v < 0x7fff) :
      FieldWire schema payload field value 0 (fillSize (LittleEndian.bytes 4 v.toNat))
  | qword (value : LuaValue) (v : UInt64) (one : field.array = false)
      (item : ItemWire payload field value (.qword v)) :
      FieldWire schema payload field value 0 (fillSize (LittleEndian.bytes 8 v.toNat))
  | object (value : LuaValue) (bytes : List UInt8) (one : field.array = false)
      (unkeyed : field.key = none) (item : ItemWire payload field value (.bytes bytes)) :
      FieldWire schema payload field value 0 (fillSize bytes)
  | array (rawlen : Nat) (entries : Entries) (values : List LuaValue) (buffer : List UInt8)
      (many : field.array = true) (elements : Elements schema field entries values)
      (some : values ≠ []) (items : ArrayWire payload field values buffer) :
      FieldWire schema payload field (.table rawlen entries) 0 (fillSize buffer)

def skipRecords (last tag : Int) : List Nat :=
  if tag - last - 1 > 0 then [((tag - last - 1 - 1) * 2 + 1).toNat] else []

inductive FieldsWire (schema : Schema) (payload : Payload) (table : Entries) :
    Int → List Field → List Nat → List UInt8 → Prop
  | done (last : Int) : FieldsWire schema payload table last [] [] []
  | absent (last : Int) (field : Field) (fields : List Field) (records : List Nat)
      (data : List UInt8)
      (missing : Agrees schema (.field field) (rawget table (.string field.name)) nil)
      (rest : FieldsWire schema payload table last fields records data) :
      FieldsWire schema payload table last (field :: fields) records data
  | present (last : Int) (field : Field) (fields : List Field) (value : Nat) (records : List Nat)
      (data more : List UInt8)
      (written : FieldWire schema payload field (rawget table (.string field.name)) value data)
      (rest : FieldsWire schema payload table field.tag fields records more) :
      FieldsWire schema payload table last (field :: fields)
        (skipRecords last field.tag ++ value :: records) (data ++ more)

def typeBytes (records : List Nat) (data : List UInt8) : List UInt8 :=
  LittleEndian.bytes 2 records.length ++ (records.flatMap (LittleEndian.bytes 2) ++ data)

def StructWire (schema : Schema) : Nat → Payload
  | 0, type, _, bytes => (schema type).f = [] ∧ bytes = typeBytes [] []
  | levels + 1, type, table, bytes =>
      bytes.length < 2 ^ 31 ∧ ∃ records data, bytes = typeBytes records data ∧
        FieldsWire schema (StructWire schema levels) table (-1) (schema type).f records data

-- An encoder may give up, but a loop of the model has turns enough.
abbrev Encodes {α : Type} (result : Except Stop α) (post : α → Prop) : Prop :=
  Yields (fun stop => stop ≠ .turns) result post

theorem encodes_within {α : Type} {post : α → Prop} (room need : Nat) {value : α}
    (holds : post value) : Encodes (within .stack room need value) post := by
  unfold within
  split_ifs
  · exact yields_pure holds
  · exact yields_error (by simp)

theorem encodes_claim (room need : Nat) : Encodes (claim .stack room need) fun _ => True :=
  encodes_within room need trivial

def EncodesStruct (schema : Schema) (struct : EncodeStruct) (payload : Payload) : Prop :=
  ∀ type table room outermost size, Fits schema type table →
    Encodes (struct type (newEncodeUd table room outermost) size) fun result =>
      payload type table result.1

theorem encodeItem_encodes (number : Scalar → List UInt8) (schema : Schema)
    (struct : EncodeStruct) (payload : Payload) (structs : EncodesStruct schema struct payload)
    (field : Field) (ud : EncodeUd) (index : Nat) (length : Int) (value : LuaValue)
    (conforms : Conforms schema (.item field) value) :
    Encodes (encodeItem number struct field ud index length value)
      (ItemWire payload field value) := by
  cases conforms with
  | integer _ v type =>
    simp only [encodeItem, type]
    split_ifs with narrow
    · exact yields_pure (.narrow v type narrow)
    · exact yields_pure (.wide v type narrow)
  | boolean _ v type =>
    simp only [encodeItem, type]
    exact yields_pure (.boolean v type)
  | string _ str type =>
    simp only [encodeItem, type]
    split_ifs
    · refine yields_error ?_
      unfold noSpace
      split_ifs <;> simp
    · exact yields_pure (.string str type)
  | struct _ rawlen entries type fields =>
    simp only [encodeItem, type]
    refine yields_bind (encodes_claim (ud.room - 1) 1) fun room _ => ?_
    refine yields_bind (structs field.st entries room false length fields) ?_
    rintro ⟨bytes, left⟩ written
    exact yields_pure (.struct rawlen entries bytes type written)

-- The callback gives one item for each value, from `index` on, and then ends.
def Feeds (cb : Callback) (wire : LuaValue → Item → Prop) (finish : EncodeUd → Prop) :
    Nat → List LuaValue → EncodeUd → Prop
  | index, [], ud =>
      ∀ length, Encodes (cb ud index length) fun result => result.1 = none ∧ finish result.2
  | index, value :: values, ud =>
      ∀ length, Encodes (cb ud index length) fun result =>
        ∃ item, result.1 = some item ∧ wire value item ∧
          Feeds cb wire finish (index + 1) values result.2

theorem arrayWidth_cases (values : List Int64) : arrayWidth values = 4 ∨ arrayWidth values = 8 := by
  unfold arrayWidth
  split_ifs
  · exact .inl rfl
  · exact .inr rfl

theorem integerLoop_encodes (cb : Callback) (payload : Payload) (field : Field)
    (finish : EncodeUd → Prop) (values done : List Int64)
    (turns : Nat) (size : Int) (ud : EncodeUd) (enough : values.length < turns)
    (feeds : Feeds cb (ItemWire payload field) finish (done.length + 1)
      (values.map integerValue) ud) :
    Encodes (integerLoop cb turns (arrayWidth done) (arrayBytes done) (done.length + 1) size ud)
      fun result => result.1 = arrayWidth (done ++ values) ∧
        result.2.1 = arrayBytes (done ++ values) ∧ finish result.2.2 := by
  induction values generalizing done turns size ud with
  | nil =>
    cases turns with
    | zero => simp at enough
    | succ turns =>
      refine yields_bind (feeds 8) ?_
      rintro ⟨item, ud⟩ ⟨rfl, finished⟩
      rw [List.append_nil]
      exact yields_pure ⟨rfl, rfl, finished⟩
  | cons v values ih =>
    cases turns with
    | zero => simp at enough
    | succ turns =>
      have left : values.length < turns := by simpa using enough
      have next : done.length + 1 + 1 = (done ++ [v]).length + 1 := by simp
      refine yields_bind (feeds 8) ?_
      rintro ⟨item, ud⟩ ⟨given, rfl, wire, feeds⟩
      have whole : done ++ v :: values = done ++ [v] ++ values := by simp
      simp only
      rw [whole]
      by_cases room : lessSize size 8 = true
      · rw [if_pos room]
        exact yields_error (by simp)
      rw [if_neg room]
      generalize same : integerValue v = value at wire
      cases wire with
      | narrow w _ narrow =>
        obtain rfl : v = w := by simpa [integerValue] using same
        have sign : signBytes (low v &&& 0x80000000 ≠ 0) = signBytes (2 ^ 31 ≤ (low v).toNat) := by
          congr 1
          refine decide_eq_decide.mpr ?_
          rw [ne_eq, Words.and_sign_eq_zero_iff, not_lt]
        have bytes := arrayBytes_narrow done v narrow
        have width := arrayWidth_append done v
        rw [if_pos narrow] at width
        simp only
        rw [sign, ← bytes, ← width, next]
        exact ih _ _ _ _ left (next ▸ feeds)
      | wide w _ wide =>
        obtain rfl : v = w := by simpa [integerValue] using same
        have bytes := arrayBytes_wide done v wide
        have width := arrayWidth_append done v
        rw [if_neg wide] at width
        simp only
        rw [next]
        split_ifs with four small
        · exact yields_error (by simp)
        · rw [if_pos four] at bytes
          rw [Nat.add_sub_cancel, ← bytes, ← width]
          exact ih _ _ _ _ left (next ▸ feeds)
        · rw [if_neg four] at bytes
          have eight : arrayWidth done = arrayWidth (done ++ [v]) := by
            rw [width]
            exact (arrayWidth_cases done).resolve_left four
          rw [← bytes, eight]
          exact ih _ _ _ _ left (next ▸ feeds)
      | boolean | string | struct => simp [integerValue] at same

theorem booleanLoop_encodes (cb : Callback) (payload : Payload) (field : Field)
    (finish : EncodeUd → Prop) (values done : List Bool) (turns index : Nat) (size : Int)
    (ud : EncodeUd) (enough : values.length < turns)
    (feeds : Feeds cb (ItemWire payload field) finish index (values.map booleanValue) ud) :
    Encodes (booleanLoop cb turns (done.map booleanByte) index size ud)
      fun result => result.1 = (done ++ values).map booleanByte ∧ finish result.2 := by
  induction values generalizing done turns index size ud with
  | nil =>
    cases turns with
    | zero => simp at enough
    | succ turns =>
      refine yields_bind (feeds 4) ?_
      rintro ⟨item, ud⟩ ⟨rfl, finished⟩
      rw [List.append_nil]
      exact yields_pure ⟨rfl, finished⟩
  | cons v values ih =>
    cases turns with
    | zero => simp at enough
    | succ turns =>
      have left : values.length < turns := by simpa using enough
      refine yields_bind (feeds 4) ?_
      rintro ⟨item, ud⟩ ⟨given, rfl, wire, feeds⟩
      have whole : done ++ v :: values = done ++ [v] ++ values := by simp
      simp only
      rw [whole]
      by_cases room : size < 1
      · rw [if_pos room]
        exact yields_error (by simp)
      rw [if_neg room]
      generalize same : booleanValue v = value at wire
      cases wire with
      | boolean w _ =>
        obtain rfl : v = w := by simpa [booleanValue] using same
        have byte : done.map booleanByte ++ [if (if v then 1 else 0 : UInt32) ≠ 0 then 1 else 0] =
            (done ++ [v]).map booleanByte := by
          cases v <;> simp [booleanByte]
        simp only
        rw [byte]
        exact ih _ _ _ _ _ left feeds
      | narrow | wide | string | struct => simp [booleanValue] at same

theorem objectLoop_encodes (cb : Callback) (payload : Payload) (field : Field)
    (finish : EncodeUd → Prop) (values : List LuaValue) (buffer : List UInt8) (turns index : Nat) (size : Int)
    (ud : EncodeUd) (enough : values.length < turns)
    (feeds : Feeds cb (ItemWire payload field) finish index values ud) :
    Encodes (objectLoop cb turns buffer index size ud) fun result =>
      ∃ payloads, result.1 = buffer ++ payloads.flatMap fillSize ∧
        List.Forall₂ (fun value bytes => ItemWire payload field value (.bytes bytes))
          values payloads ∧ finish result.2 := by
  induction values generalizing buffer turns index size ud with
  | nil =>
    cases turns with
    | zero => simp at enough
    | succ turns =>
      rw [objectLoop]
      split_ifs
      · exact yields_error (by simp)
      refine yields_bind (feeds _) ?_
      rintro ⟨item, ud⟩ ⟨rfl, finished⟩
      exact yields_pure ⟨[], by simp, .nil, finished⟩
  | cons value values ih =>
    cases turns with
    | zero => simp at enough
    | succ turns =>
      have left : values.length < turns := by simpa using enough
      rw [objectLoop]
      split_ifs
      · exact yields_error (by simp)
      refine yields_bind (feeds _) ?_
      rintro ⟨item, ud⟩ ⟨given, rfl, wire, feeds⟩
      simp only
      cases given with
      | bytes bytes =>
        refine yields_mono (ih _ _ _ _ _ left feeds) ?_
        rintro ⟨written, ud⟩ ⟨payloads, rfl, items, finished⟩
        exact ⟨bytes :: payloads, by simp, .cons wire items, finished⟩
      | word v => exact yields_error (by simp)
      | qword v => exact yields_error (by simp)

theorem values_integers (schema : Schema) (field : Field) (values : List LuaValue)
    (type : field.type = .integer) (items : ∀ value ∈ values, Conforms schema (.item field) value) :
    ∃ integers : List Int64, values = integers.map integerValue := by
  induction values with
  | nil => exact ⟨[], rfl⟩
  | cons value values ih =>
    obtain ⟨integers, rfl⟩ := ih fun value inside => items value (List.mem_cons_of_mem _ inside)
    have item := items value List.mem_cons_self
    cases item with
    | integer _ v _ => exact ⟨v :: integers, rfl⟩
    | boolean _ _ other | string _ _ other | struct _ _ _ other => simp [type] at other

theorem values_booleans (schema : Schema) (field : Field) (values : List LuaValue)
    (type : field.type = .boolean) (items : ∀ value ∈ values, Conforms schema (.item field) value) :
    ∃ booleans : List Bool, values = booleans.map booleanValue := by
  induction values with
  | nil => exact ⟨[], rfl⟩
  | cons value values ih =>
    obtain ⟨booleans, rfl⟩ := ih fun value inside => items value (List.mem_cons_of_mem _ inside)
    have item := items value List.mem_cons_self
    cases item with
    | boolean _ v _ => exact ⟨v :: booleans, rfl⟩
    | integer _ _ other | string _ _ other | struct _ _ _ other => simp [type] at other

theorem length_arrayBytes (values : List Int64) :
    (arrayBytes values).length = values.length * arrayWidth values := by
  simp [arrayBytes, List.length_flatMap]

theorem arrayBytes_isEmpty (values : List Int64) :
    (arrayBytes values).isEmpty = true ↔ values = [] := by
  have length := length_arrayBytes values
  have width := arrayWidth_cases values
  rw [List.isEmpty_iff, ← List.length_eq_zero_iff, length, ← List.length_eq_zero_iff]
  constructor
  · intro zero
    rcases width with width | width
    all_goals
      rw [width] at zero
      omega
  · intro zero
    rw [zero, Nat.zero_mul]

theorem fillSize_ne_nil (data : List UInt8) : fillSize data ≠ [] := by
  simp [fillSize, LittleEndian.bytes, sizeofLength]

def LoopWire (payload : Payload) (field : Field) (values : List LuaValue)
    (buffer : List UInt8) : Prop :=
  (values = [] ∧ buffer = []) ∨ (values ≠ [] ∧ buffer ≠ [] ∧ ArrayWire payload field values buffer)

theorem encodeIntegerArray_encodes (cb : Callback) (payload : Payload) (field : Field)
    (type : field.type = .integer) (finish : EncodeUd → Prop) (values : List Int64) (turns : Nat)
    (size : Int) (ud : EncodeUd) (enough : values.length < turns)
    (feeds : Feeds cb (ItemWire payload field) finish 1 (values.map integerValue) ud) :
    Encodes (encodeIntegerArray cb turns ud size) fun result =>
      LoopWire payload field (values.map integerValue) result.1 ∧ finish result.2 := by
  rw [encodeIntegerArray]
  split_ifs
  · exact yields_error (by simp)
  refine yields_bind (integerLoop_encodes cb payload field finish values [] turns (size - 1) ud
    enough feeds) ?_
  rintro ⟨intlen, buffer, ud⟩ ⟨width, bytes, finished⟩
  simp only [List.nil_append] at width bytes finished
  subst width bytes
  by_cases empty : values = []
  · subst empty
    exact yields_pure ⟨.inl ⟨rfl, rfl⟩, finished⟩
  · simp only
    rw [if_neg (by rwa [arrayBytes_isEmpty])]
    exact yields_pure ⟨.inr ⟨by simpa using empty, by simp, .integers values type⟩, finished⟩

theorem encodeArray_encodes (cb : Callback) (schema : Schema) (payload : Payload) (field : Field)
    (finish : EncodeUd → Prop) (values : List LuaValue) (ud : EncodeUd) (size : Int)
    (items : ∀ value ∈ values, Conforms schema (.item field) value)
    (enough : values.length < arrayTurns ud field)
    (feeds : Feeds cb (ItemWire payload field) finish 1 values ud) :
    Encodes (encodeArray cb field ud size) fun result => finish result.2 ∧
      ((values = [] ∧ result.1 = []) ∨
        (values ≠ [] ∧ ∃ buffer, ArrayWire payload field values buffer ∧
          result.1 = fillSize buffer)) := by
  rw [encodeArray]
  split_ifs
  · exact yields_error (by simp)
  have filled (result : List UInt8 × EncodeUd)
      (loop : LoopWire payload field values result.1 ∧ finish result.2) :
      Encodes (pure (if result.1.isEmpty then [] else fillSize result.1, result.2)) fun result =>
        finish result.2 ∧ ((values = [] ∧ result.1 = []) ∨ (values ≠ [] ∧ ∃ buffer,
          ArrayWire payload field values buffer ∧ result.1 = fillSize buffer)) := by
    obtain ⟨⟨empty, nothing⟩ | ⟨some, filled, array⟩, finished⟩ := loop
    · rw [nothing]
      exact yields_pure ⟨finished, .inl ⟨empty, rfl⟩⟩
    · rw [if_neg (by simpa using filled)]
      exact yields_pure ⟨finished, .inr ⟨some, result.1, array, rfl⟩⟩
  cases type : field.type with
  | integer =>
    obtain ⟨integers, rfl⟩ := values_integers schema field values type items
    rw [List.length_map] at enough
    exact yields_bind (encodeIntegerArray_encodes cb payload field type finish integers _ _ ud
      enough feeds) filled
  | boolean =>
    obtain ⟨booleans, rfl⟩ := values_booleans schema field values type items
    rw [List.length_map] at enough
    refine yields_bind (booleanLoop_encodes cb payload field finish booleans [] _ 1 _ ud enough
      feeds) ?_
    rintro ⟨buffer, ud⟩ ⟨bytes, finished⟩
    simp only [List.nil_append] at bytes
    subst bytes
    refine filled _ ⟨?_, finished⟩
    by_cases empty : booleans = []
    · exact .inl ⟨by simpa using empty, by simpa using empty⟩
    · exact .inr ⟨by simpa using empty, by simpa using empty, .booleans booleans type⟩
  | string | struct =>
    refine yields_bind (objectLoop_encodes cb payload field finish values [] _ 1 _ ud enough
      feeds) ?_
    rintro ⟨buffer, ud⟩ ⟨payloads, bytes, written, finished⟩
    simp only [List.nil_append] at bytes
    subst bytes
    refine filled _ ⟨?_, finished⟩
    have array := ArrayWire.objects values payloads (by simp [type]) written
    cases written with
    | nil => exact .inl ⟨rfl, rfl⟩
    | cons => exact .inr ⟨by simp, by simp [fillSize_ne_nil], array⟩

structure Idle (table : Entries) (last : Int) (ud : EncodeUd) : Prop where
  table : ud.table = table
  iter : ud.iter = 0
  tag : ∀ tag, ud.arrayTag = some tag → (tag : Int) ≤ last

section callback

variable (number : Scalar → List UInt8) (schema : Schema) (struct : EncodeStruct)
  (payload : Payload) (structs : EncodesStruct schema struct payload) (field : Field)
include structs

theorem encode_item (ud : EncodeUd) (index : Nat) (length : Int) (value : LuaValue)
    (left : EncodeUd → Prop)
    (fetched : Encodes (fetch ud field index) fun result => result.1 = value ∧ left result.2)
    (conforms : Conforms schema (.item field) value) :
    Encodes (encode number (some struct) field ud index length) fun result =>
      ∃ item, result.1 = some item ∧ ItemWire payload field value item ∧ left result.2 := by
  refine yields_bind fetched ?_
  rintro ⟨given, next⟩ ⟨rfl, holds⟩
  simp only
  rw [conforms_item_present schema field given conforms, if_neg (by simp)]
  refine yields_bind (encodeItem_encodes number schema struct payload structs field next index length
    given conforms) ?_
  intro item wire
  exact yields_pure ⟨item, rfl, wire, holds⟩

omit structs in
theorem encode_nil (ud : EncodeUd) (index : Nat) (length : Int) (left : EncodeUd → Prop)
    (fetched : Encodes (fetch ud field index) fun result => result.1 = nil ∧ left result.2) :
    Encodes (encode number (some struct) field ud index length) fun result =>
      result.1 = none ∧ left result.2 := by
  refine yields_bind fetched ?_
  rintro ⟨given, next⟩ ⟨rfl, holds⟩
  exact yields_pure ⟨rfl, holds⟩

-- The array of the field is at `array_index`, and `iter` of its pairs have been given.
structure Selected (table entries : Entries) (iter : Nat) (ud : EncodeUd) : Prop where
  table : ud.table = table
  tag : ud.arrayTag = some field.tag
  array : ud.array = some entries
  iter : ud.iter = iter

omit structs in
theorem selectArray_table (ud : EncodeUd) (index rawlen : Nat) (entries : Entries)
    (held : rawget ud.table (.string field.name) = .table rawlen entries)
    (selected : ud.arrayTag = some field.tag → ud.array = some entries) :
    Encodes (selectArray ud field index) (Selected field ud.table entries ud.iter) := by
  unfold selectArray
  by_cases same : ud.arrayTag = some field.tag
  · rw [if_pos same]
    exact yields_pure ⟨rfl, same, selected same, rfl⟩
  · rw [if_neg same]
    refine yields_bind (encodes_claim ud.room 1) fun room _ => ?_
    simp only [held]
    exact yields_pure ⟨rfl, rfl, rfl, rfl⟩

omit structs in
theorem selectArray_absent (ud : EncodeUd) (index : Nat)
    (missing : rawget ud.table (.string field.name) = nil)
    (other : ud.arrayTag ≠ some field.tag) :
    Encodes (selectArray ud field index) fun next => next.array = none ∧
      next.table = ud.table ∧ next.iter = ud.iter ∧ next.arrayTag = some field.tag := by
  unfold selectArray
  rw [if_neg other]
  refine yields_bind (encodes_claim ud.room 1) fun room _ => ?_
  simp only [missing]
  exact yields_pure ⟨rfl, rfl, rfl, rfl⟩

omit structs in
theorem fetch_sequence (ud : EncodeUd) (index rawlen : Nat) (entries : Entries)
    (unkeyed : field.key = none)
    (held : rawget ud.table (.string field.name) = .table rawlen entries)
    (selected : ud.arrayTag = some field.tag → ud.array = some entries) :
    Encodes (fetch ud field (index + 1)) fun result =>
      result.1 = rawgeti entries (index + 1) ∧
        Selected field ud.table entries ud.iter result.2 := by
  rw [fetch, if_pos (Nat.succ_pos index)]
  refine yields_bind (selectArray_table field ud _ rawlen entries held selected) ?_
  intro next chosen
  rw [chosen.array, unkeyed]
  exact encodes_within _ _ ⟨rfl, chosen⟩

omit structs in
theorem fetch_keyed (ud : EncodeUd) (index rawlen tag : Nat) (entries : Entries)
    (keyed : field.key = some tag)
    (held : rawget ud.table (.string field.name) = .table rawlen entries)
    (selected : ud.arrayTag = some field.tag → ud.array = some entries) :
    Encodes (fetch ud field (index + 1)) fun result =>
      match entries[ud.iter]? with
      | none => result.1 = nil ∧ Selected field ud.table entries 0 result.2
      | some (_, value) =>
          result.1 = value ∧ Selected field ud.table entries (ud.iter + 1) result.2 := by
  rw [fetch, if_pos (Nat.succ_pos index)]
  refine yields_bind (selectArray_table field ud _ rawlen entries held selected) ?_
  intro next chosen
  rw [chosen.array, keyed]
  simp only [Option.isSome_some, if_true]
  rw [chosen.iter]
  cases entries[ud.iter]? with
  | none => exact encodes_within _ _ ⟨rfl, chosen.table, chosen.tag, rfl, rfl⟩
  | some entry =>
    exact encodes_within _ _ ⟨rfl, chosen.table, chosen.tag, rfl, rfl⟩

omit structs in
theorem Selected.idle {table entries : Entries} {iter : Nat} {ud start : EncodeUd}
    (chosen : Selected field start.table entries iter ud) (same : start.table = table)
    (done : iter = 0) : Idle table field.tag ud := by
  refine ⟨chosen.table.trans same, chosen.iter.trans done, ?_⟩
  intro tag selected
  obtain rfl := Option.some.inj (chosen.tag.symm.trans selected)
  exact le_rfl

theorem encode_feeds_sequence (table : Entries) (rawlen : Nat) (entries : Entries)
    (held : rawget table (.string field.name) = .table rawlen entries)
    (unkeyed : field.key = none) (before values : List LuaValue)
    (sequence : Sequence entries (before ++ values))
    (items : ∀ value ∈ values, Conforms schema (.item field) value) (ud : EncodeUd)
    (same : ud.table = table) (iter : ud.iter = 0)
    (selected : ud.arrayTag = some field.tag → ud.array = some entries) :
    Feeds (encode number (some struct) field) (ItemWire payload field) (Idle table field.tag)
      (before.length + 1) values ud := by
  induction values generalizing before ud with
  | nil =>
    intro length
    have fetched := fetch_sequence field ud before.length rawlen entries unkeyed (same ▸ held)
      selected
    rw [List.append_nil] at sequence
    rw [rawgeti_behind entries before sequence] at fetched
    refine yields_mono (encode_nil number struct field ud _ length _ fetched) ?_
    rintro ⟨given, next⟩ ⟨ended, chosen⟩
    exact ⟨ended, chosen.idle field same iter⟩
  | cons value values ih =>
    intro length
    have fetched := fetch_sequence field ud before.length rawlen entries unkeyed (same ▸ held)
      selected
    have place : before.length < (before ++ value :: values).length := by simp
    have get := sequence.get before.length place
    have here : (before ++ value :: values).get ⟨before.length, place⟩ = value := by simp
    rw [here] at get
    rw [get] at fetched
    refine yields_mono (encode_item number schema struct payload structs field ud _ length value _
      fetched (items value List.mem_cons_self)) ?_
    rintro ⟨given, next⟩ ⟨item, rfl, wire, chosen⟩
    refine ⟨item, rfl, wire, ?_⟩
    have whole : before ++ value :: values = before ++ [value] ++ values := by simp
    have count : before.length + 1 + 1 = (before ++ [value]).length + 1 := by simp
    rw [whole] at sequence
    rw [count]
    exact ih (before ++ [value]) sequence
      (fun value inside => items value (List.mem_cons_of_mem _ inside)) next
      (chosen.table.trans same) (chosen.iter.trans iter) (fun _ => chosen.array)

theorem encode_feeds_keyed (table : Entries) (rawlen tag : Nat) (before entries : Entries)
    (held : rawget table (.string field.name) = .table rawlen (before ++ entries))
    (keyed : field.key = some tag)
    (items : ∀ value ∈ entries.map Prod.snd, Conforms schema (.item field) value) (ud : EncodeUd)
    (same : ud.table = table) (iter : ud.iter = before.length)
    (selected : ud.arrayTag = some field.tag → ud.array = some (before ++ entries)) :
    Feeds (encode number (some struct) field) (ItemWire payload field) (Idle table field.tag)
      (before.length + 1) (entries.map Prod.snd) ud := by
  induction entries generalizing before ud with
  | nil =>
    intro length
    have fetched := fetch_keyed field ud before.length rawlen tag _ keyed (same ▸ held) selected
    have none : (before ++ [])[ud.iter]? = none := by simp [iter]
    rw [none] at fetched
    refine yields_mono (encode_nil number struct field ud _ length _ fetched) ?_
    rintro ⟨given, next⟩ ⟨ended, chosen⟩
    exact ⟨ended, chosen.idle field same rfl⟩
  | cons entry entries ih =>
    intro length
    have fetched := fetch_keyed field ud before.length rawlen tag _ keyed (same ▸ held) selected
    have here : (before ++ entry :: entries)[ud.iter]? = some entry := by simp [iter]
    rw [here] at fetched
    refine yields_mono (encode_item number schema struct payload structs field ud _ length entry.2 _
      fetched (items entry.2 List.mem_cons_self)) ?_
    rintro ⟨given, next⟩ ⟨item, rfl, wire, chosen⟩
    refine ⟨item, rfl, wire, ?_⟩
    have whole : before ++ entry :: entries = before ++ [entry] ++ entries := by simp
    have count : before.length + 1 + 1 = (before ++ [entry]).length + 1 := by simp
    rw [whole] at held
    rw [count]
    refine ih (before ++ [entry]) held
      (fun value inside => items value (List.mem_cons_of_mem _ inside)) next
      (chosen.table.trans same) ?_ ?_
    · rw [List.length_append, List.length_singleton, ← iter]
      exact chosen.iter
    · intro _
      exact chosen.array.trans (congrArg some whole)

theorem encode_feeds (table : Entries) (last : Int) (rawlen : Nat) (entries : Entries)
    (values : List LuaValue)
    (held : rawget table (.string field.name) = .table rawlen entries)
    (elements : Elements schema field entries values)
    (items : ∀ value ∈ values, Conforms schema (.item field) value) (ud : EncodeUd)
    (idle : Idle table last ud) (later : last < field.tag) :
    Feeds (encode number (some struct) field) (ItemWire payload field) (Idle table field.tag)
      1 values ud := by
  have selected : ud.arrayTag = some field.tag → ud.array = some entries := by
    intro same
    have bound := idle.tag field.tag same
    omega
  cases elements with
  | sequence _ unkeyed sequence =>
    exact encode_feeds_sequence number schema struct payload structs field table rawlen entries held
      unkeyed [] values sequence items ud idle.table idle.iter selected
  | keyed main keyed =>
    exact encode_feeds_keyed number schema struct payload structs field table rawlen main.tag []
      entries held keyed items ud idle.table idle.iter selected

omit structs in
theorem encode_feeds_absent (table : Entries) (last : Int)
    (held : rawget table (.string field.name) = nil) (ud : EncodeUd) (idle : Idle table last ud)
    (later : last < field.tag) :
    Feeds (encode number (some struct) field) (ItemWire payload field) (Idle table field.tag)
      1 [] ud := by
  intro length
  have other : ¬ud.arrayTag = some field.tag := by
    intro same
    have bound := idle.tag field.tag same
    omega
  have fetched : Encodes (fetch ud field 1) fun result =>
      result.1 = nil ∧ Idle table field.tag result.2 := by
    rw [fetch, if_pos Nat.one_pos]
    refine yields_bind (selectArray_absent field ud 1 (idle.table.symm ▸ held) other) ?_
    rintro next ⟨none_, table, iter, tag⟩
    rw [none_]
    refine yields_pure ⟨rfl, table.trans idle.table, iter.trans idle.iter, ?_⟩
    intro tag' selected
    obtain rfl := Option.some.inj (tag.symm.trans selected)
    exact le_rfl
  exact encode_nil number struct field ud 1 length _ fetched

theorem encodeArray_field (table : Entries) (last : Int)
    (many : field.array = true)
    (conforms : Conforms schema (.field field) (rawget table (.string field.name)))
    (ud : EncodeUd) (idle : Idle table last ud) (later : last < field.tag) (size : Int) :
    Encodes (encodeArray (encode number (some struct) field) field ud size) fun result =>
      Idle table field.tag result.2 ∧
        ((result.1 = [] ∧
            Agrees schema (.field field) (rawget table (.string field.name)) nil) ∨
          FieldWire schema payload field (rawget table (.string field.name)) 0 result.1) := by
  generalize held : rawget table (.string field.name) = value at conforms
  cases conforms with
  | absent =>
    have turns : 0 < arrayTurns ud field := by
      rw [arrayTurns, idle.table, held]
      exact Nat.one_pos
    refine yields_mono (encodeArray_encodes _ schema payload field _ [] ud size (by simp) turns
      (encode_feeds_absent number struct payload field table last held ud idle later)) ?_
    rintro ⟨data, ud⟩ ⟨finished, written⟩
    refine ⟨finished, .inl ⟨?_, .absent field⟩⟩
    rcases written with ⟨_, nothing⟩ | ⟨some, _⟩
    · exact nothing
    · exact absurd rfl some
  | single _ _ one => simp [many] at one
  | array _ rawlen entries values _ elements items =>
    have turns : values.length < arrayTurns ud field := by
      rw [arrayTurns, idle.table, held]
      exact Nat.lt_succ_of_le (elements_length schema field entries values elements)
    refine yields_mono (encodeArray_encodes _ schema payload field _ values ud size items turns
      (encode_feeds number schema struct payload structs field table last rawlen entries values held
        elements items ud idle later)) ?_
    rintro ⟨data, ud⟩ ⟨finished, ⟨rfl, nothing⟩ | ⟨some, buffer, array, filled⟩⟩
    · exact ⟨finished, .inl ⟨nothing, .empty field rawlen entries many elements⟩⟩
    · refine ⟨finished, .inr ?_⟩
      simp only at filled
      rw [filled]
      exact .array rawlen entries values buffer many elements some array

omit structs in
theorem fetch_single (ud : EncodeUd) :
    Encodes (fetch ud field 0) fun result =>
      result.1 = rawget ud.table (.string field.name) ∧ result.2 = ud := by
  rw [fetch, if_neg (by simp)]
  exact encodes_within _ _ ⟨rfl, rfl⟩

def FieldResult (schema : Schema) (payload : Payload) (field : Field) (value : LuaValue)
    (record : Nat) (data : List UInt8) : Prop :=
  (record = 0 ∧ data = [] ∧ Agrees schema (.field field) value nil) ∨
    FieldWire schema payload field value record data

theorem encodeField_item (ud : EncodeUd) (size : Int) (one : field.array = false)
    (unkeyed : field.key = none)
    (conforms : Conforms schema (.item field) (rawget ud.table (.string field.name))) :
    Encodes (encodeField (encode number (some struct) field) field ud size) fun result =>
      FieldWire schema payload field (rawget ud.table (.string field.name)) result.1 result.2.1 ∧
        result.2.2 = ud := by
  have fetched := fetch_single field ud
  have callback (length : Int) := encode_item number schema struct payload structs field ud 0
    length _ (· = ud) fetched conforms
  rw [encodeField, one]
  cases type : field.type with
  | integer | boolean =>
    refine yields_bind (callback 8) ?_
    rintro ⟨given, next⟩ ⟨item, rfl, wire, rfl⟩
    cases item with
    | word v =>
      simp only
      split_ifs with small
      · exact yields_pure ⟨.small _ v one wire small, rfl⟩
      · rw [encodeInteger]
        split_ifs
        · exact yields_error (by simp)
        · exact yields_pure ⟨.word _ v one wire small, rfl⟩
    | qword v =>
      simp only [encodeUint64]
      split_ifs
      · exact yields_error (by simp)
      · exact yields_pure ⟨.qword _ v one wire, rfl⟩
    | bytes b => exact yields_error (by simp)
  | string | struct =>
    have object : Encodes (encodeObject (encode number (some struct) field) ud size) fun result =>
        ∃ bytes, ItemWire payload field (rawget ud.table (.string field.name)) (.bytes bytes) ∧
          result = (fillSize bytes, ud) := by
      rw [encodeObject]
      split_ifs
      · exact yields_error (by simp)
      refine yields_bind (callback _) ?_
      rintro ⟨given, next⟩ ⟨item, rfl, wire, rfl⟩
      cases item with
      | bytes bytes => exact yields_pure ⟨bytes, wire, rfl⟩
      | word v => exact yields_error (by simp)
      | qword v => exact yields_error (by simp)
    refine yields_bind object ?_
    rintro _ ⟨bytes, wire, rfl⟩
    exact yields_pure ⟨.object _ bytes one unkeyed wire, rfl⟩

omit structs in
theorem encodeField_absent (ud : EncodeUd) (size : Int) (one : field.array = false)
    (held : rawget ud.table (.string field.name) = nil) :
    Encodes (encodeField (encode number (some struct) field) field ud size) fun result =>
      result = (0, [], ud) := by
  have fetched := fetch_single field ud
  rw [held] at fetched
  have callback (length : Int) := encode_nil number struct field ud 0 length (· = ud) fetched
  rw [encodeField, one]
  cases type : field.type with
  | integer | boolean =>
    refine yields_bind (callback 8) ?_
    rintro ⟨given, next⟩ ⟨rfl, rfl⟩
    exact yields_pure rfl
  | string | struct =>
    have object : Encodes (encodeObject (encode number (some struct) field) ud size) fun result =>
        result = ([], ud) := by
      rw [encodeObject]
      split_ifs
      · exact yields_error (by simp)
      refine yields_bind (callback _) ?_
      rintro ⟨given, next⟩ ⟨rfl, rfl⟩
      exact yields_pure rfl
    refine yields_bind object ?_
    rintro _ rfl
    exact yields_pure rfl

theorem encodeField_encodes (table : Entries) (last : Int)
    (conforms : Conforms schema (.field field) (rawget table (.string field.name)))
    (ud : EncodeUd) (idle : Idle table last ud) (later : last < field.tag) (size : Int) :
    Encodes (encodeField (encode number (some struct) field) field ud size) fun result =>
      FieldResult schema payload field (rawget table (.string field.name)) result.1 result.2.1 ∧
        Idle table field.tag result.2.2 := by
  by_cases many : field.array = true
  · rw [encodeField, if_pos many]
    refine yields_bind (encodeArray_field number schema struct payload structs field table last many
      conforms ud idle later size) ?_
    rintro ⟨data, ud⟩ ⟨finished, ⟨rfl, missing⟩ | wire⟩
    · exact yields_pure ⟨.inl ⟨rfl, rfl, missing⟩, finished⟩
    · exact yields_pure ⟨.inr wire, finished⟩
  · have one : field.array = false := by simpa using many
    have still : Idle table field.tag ud :=
      ⟨idle.table, idle.iter, fun tag same => le_trans (idle.tag tag same) later.le⟩
    have unchanged := idle.table
    subst unchanged
    generalize held : rawget ud.table (.string field.name) = value at conforms
    cases conforms with
    | absent =>
      refine yields_mono (encodeField_absent number struct field ud size one held) ?_
      rintro _ rfl
      exact ⟨.inl ⟨rfl, rfl, .absent field⟩, still⟩
    | single _ _ _ unkeyed item =>
      subst held
      refine yields_mono (encodeField_item number schema struct payload structs field ud size one
        unkeyed item) ?_
      rintro ⟨value, data, next⟩ ⟨wire, rfl⟩
      exact ⟨.inr wire, still⟩
    | array _ _ _ _ other => exact absurd other many

end callback

theorem fieldWire_some (schema : Schema) (payload : Payload) (field : Field) (value : LuaValue)
    (record : Nat) (data : List UInt8)
    (wire : FieldWire schema payload field value record data) : ¬(record = 0 ∧ data = []) := by
  cases wire with
  | small => simp
  | word | qword | object | array => simp [fillSize_ne_nil]

inductive StepWire (schema : Schema) (payload : Payload) (field : Field) (value : LuaValue)
    (state next : EncodeState) : Prop
  | absent (missing : Agrees schema (.field field) value nil)
      (records : next.records = state.records) (lasttag : next.lasttag = state.lasttag)
      (data : next.data = state.data)
  | present (record : Nat) (data : List UInt8)
      (wire : FieldWire schema payload field value record data)
      (records : next.records = state.records ++ (skipRecords state.lasttag field.tag ++ [record]))
      (lasttag : next.lasttag = field.tag) (appended : next.data = state.data ++ data)

section type

variable (number : Scalar → List UInt8) (schema : Schema) (struct : EncodeStruct)
  (payload : Payload) (structs : EncodesStruct schema struct payload) (table : Entries)
include structs

theorem encodeStep_encodes (field : Field)
    (conforms : Conforms schema (.field field) (rawget table (.string field.name)))
    (state : EncodeState) (last : Int) (idle : Idle table last state.ud)
    (later : last < field.tag) :
    Encodes (encodeStep number (some struct) state field) fun next =>
      StepWire schema payload field (rawget table (.string field.name)) state next ∧
        Idle table field.tag next.ud := by
  refine yields_bind (encodeField_encodes number schema struct payload structs field table last
    conforms state.ud idle later state.size) ?_
  rintro ⟨record, data, ud⟩ ⟨⟨rfl, rfl, missing⟩ | wire, finished⟩
  · exact yields_pure ⟨.absent missing rfl rfl rfl, finished⟩
  · have some := fieldWire_some schema payload field _ record data wire
    simp only
    rw [if_neg some]
    by_cases full : (field.tag : Int) - state.lasttag - 1 > 0 ∧
        ((field.tag : Int) - state.lasttag - 1 - 1) * 2 + 1 > 0xffff
    · rw [if_pos full]
      exact yields_error (by simp)
    · rw [if_neg full]
      refine yields_pure ⟨.present record data wire ?_ rfl rfl, finished⟩
      exact List.append_assoc _ _ _

theorem encodeFields_encode (fields : List Field)
    (tags : fields.Pairwise fun first second => first.tag < second.tag)
    (conforms : ∀ field ∈ fields,
      Conforms schema (.field field) (rawget table (.string field.name)))
    (state : EncodeState) (last : Int) (idle : Idle table last state.ud)
    (later : ∀ field ∈ fields, last < field.tag) :
    Encodes (fields.foldlM (encodeStep number (some struct)) state) fun final =>
      ∃ records data, FieldsWire schema payload table state.lasttag fields records data ∧
        final.records = state.records ++ records ∧ final.data = state.data ++ data := by
  induction fields generalizing state last with
  | nil => exact yields_pure ⟨[], [], .done _, by simp, by simp⟩
  | cons field fields ih =>
    rw [List.pairwise_cons] at tags
    have behind : ∀ other ∈ fields, (field.tag : Int) < other.tag := by
      intro other inside
      exact_mod_cast tags.1 other inside
    rw [List.foldlM_cons]
    refine yields_bind (encodeStep_encodes number schema struct payload structs table field
      (conforms field List.mem_cons_self) state last idle (later field List.mem_cons_self)) ?_
    intro next step
    refine yields_mono (ih tags.2 (fun other inside => conforms other (List.mem_cons_of_mem _ inside))
      next field.tag step.2 behind) ?_
    rintro final ⟨records, more, wire, finalRecords, finalData⟩
    cases step.1 with
    | absent missing sameRecords lasttag sameData =>
      rw [sameRecords] at finalRecords
      rw [sameData] at finalData
      rw [lasttag] at wire
      exact ⟨records, more, .absent _ field fields records more missing wire, finalRecords, finalData⟩
    | present record data written added lasttag appended =>
      rw [added, List.append_assoc, List.append_assoc] at finalRecords
      rw [appended, List.append_assoc] at finalData
      rw [lasttag] at wire
      exact ⟨_, _, .present _ field fields record records data more written wire, finalRecords,
        finalData⟩

theorem encodeType_encodes (type : Nat) (ascending : Ascending (schema type))
    (fits : Fits schema type table) (room : Nat) (outermost : Bool) (size : Int) :
    Encodes (encodeType number (some struct) (schema type) (newEncodeUd table room outermost) size)
      fun result => result.1.length < 2 ^ 31 ∧ ∃ records data, result.1 = typeBytes records data ∧
        FieldsWire schema payload table (-1) (schema type).f records data := by
  rw [encodeType]
  split_ifs
  · exact yields_error (by simp)
  have idle : Idle table (-1) (newEncodeUd table room outermost) :=
    ⟨rfl, rfl, by simp [newEncodeUd]⟩
  refine yields_bind (encodeFields_encode number schema struct payload structs table
    (schema type).f ascending.tags fits _ (-1) idle fun field _ => by omega) ?_
  rintro final ⟨records, data, wire, finalRecords, finalData⟩
  simp only [List.nil_append] at finalRecords finalData
  simp only [finalRecords, finalData]
  split_ifs with small
  · exact yields_pure ⟨small, records, data, rfl, wire⟩
  · exact yields_error (by simp)

end type

theorem encodeField_deepest (number : Scalar → List UInt8) (field : Field) (ud : EncodeUd)
    (size : Int) :
    Encodes (encodeField (encode number none field) field ud size) fun _ => False := by
  have deep : Stop.error "The table is too deep" ≠ .turns := by simp
  have turns : arrayTurns ud field ≠ 0 := by
    rw [arrayTurns]
    split <;> simp
  obtain ⟨turns, more⟩ := Nat.exists_eq_succ_of_ne_zero turns
  rw [encodeField]
  split_ifs
  · rw [encodeArray]
    simp only [more]
    split_ifs
    · exact yields_error (by simp)
    · cases field.type with
      | integer =>
        simp only [encodeIntegerArray]
        split_ifs
        · exact yields_error (by simp)
        · exact deep
      | boolean => exact deep
      | string | struct =>
        simp only [objectLoop]
        split_ifs
        · exact yields_error (by simp)
        · exact deep
  · cases field.type with
    | integer | boolean => exact deep
    | string | struct =>
      simp only [encodeObject]
      split_ifs
      · exact yields_error (by simp)
      · exact deep

theorem sprotoEncode_encodes (number : Scalar → List UInt8) (schema : Schema)
    (ascending : ∀ type, Ascending (schema type)) (levels : Nat) :
    EncodesStruct schema (sprotoEncode number schema levels) (StructWire schema levels) := by
  induction levels with
  | zero =>
    intro type table room outermost size fits
    rw [sprotoEncode, encodeType]
    split_ifs
    · exact yields_error (by simp)
    cases fields : (schema type).f with
    | nil => exact ⟨fields, rfl⟩
    | cons field rest =>
      have none (state : EncodeState) : Encodes (encodeStep number none state field) fun _ => False :=
        yields_bind (encodeField_deepest number field state.ud state.size) fun _ => False.elim
      refine yields_bind ?_ fun _ => False.elim
      rw [List.foldlM_cons]
      exact yields_bind (none _) fun _ => False.elim
  | succ levels ih =>
    intro type table room outermost size fits
    exact encodeType_encodes number schema (sprotoEncode number schema levels)
      (StructWire schema levels) ih table type (ascending type) fits room outermost size

end Pskynet.Sproto
