import Pskynet.Sproto.Wire
set_option autoImplicit false

open Outcome

namespace Pskynet.Sproto

open Lua

variable (border : Entries → Nat)

structure Fills (field : Field) (holds : Entries → Prop) (start ud : DecodeUd) : Prop where
  arrayTag : ud.arrayTag = some field.tag
  array : holds ud.array
  result : ∀ key, rawget ud.result key =
    if key = .string field.name then .table (border ud.array) ud.array else rawget start.result key
  entries : ∀ entry ∈ ud.result, entry ∈ start.result ∨ entry.1 = .scalar (.string field.name)
  mainindexTag : ud.mainindexTag = start.mainindexTag
  key : ud.key = start.key

inductive Filled (field : Field) (holds : Entries → Prop) (start : DecodeUd) :
    Nat → DecodeUd → Prop
  | start (fresh : start.arrayTag ≠ some field.tag) (empty : holds []) :
      Filled field holds start 0 start
  | next (count : Nat) (ud : DecodeUd) (fills : Fills border field holds start ud) :
      Filled field holds start (count + 1) ud

theorem setArray_result (ud : DecodeUd) (field : Field) (array : Entries) :
    (setArray border ud field array).result =
      store ud.result (.string field.name) (.table (border array) array) :=
  rfl

theorem newArray_fills (field : Field) (holds : Entries → Prop) (start ud : DecodeUd)
    (count index : Nat) (positive : 0 < index)
    (filled : Filled border field holds start count ud) :
    Fills border field holds start (newArray border ud field index) := by
  cases filled with
  | start fresh empty =>
    rw [newArray, if_pos ⟨positive, fresh⟩]
    refine ⟨rfl, empty, fun key => ?_, fun entry inside => ?_, rfl, rfl⟩
    · rw [setArray_result]
      exact rawget_store _ _ _ _
    · rw [setArray_result] at inside
      rcases mem_store _ _ _ _ inside with old | rfl
      · exact .inl old
      · exact .inr rfl
  | next count ud fills =>
    rw [newArray, if_neg (by simp [fills.arrayTag])]
    exact fills

theorem setArray_fills (field : Field) (holds after : Entries → Prop) (start ud : DecodeUd)
    (array : Entries) (fills : Fills border field holds start ud) (held : after array) :
    Fills border field after start (setArray border ud field array) := by
  refine ⟨fills.arrayTag, held, fun key => ?_, fun entry inside => ?_, fills.mainindexTag,
    fills.key⟩
  · rw [setArray_result, rawget_store]
    split_ifs with same
    · rfl
    · rw [fills.result key, if_neg same]
  · rw [setArray_result] at inside
    rcases mem_store _ _ _ _ inside with old | rfl
    · exact fills.entries entry old
    · exact .inr rfl

theorem setValue_fills (field : Field) (results : List LuaValue) (start ud : DecodeUd)
    (value : LuaValue) (present : value ≠ nil) (short : results.length + 1 < 2 ^ 63)
    (filled : Filled border field (Sequence · results) start results.length ud) :
    Fills border field (Sequence · (results ++ [value])) start
      (setValue border (newArray border ud field (results.length + 1)) field (results.length + 1)
        value) := by
  have fills := newArray_fills border field _ start ud _ _ (Nat.succ_pos results.length) filled
  rw [setValue, if_pos (Nat.succ_pos _)]
  exact setArray_fills border field _ _ start _ _ fills
    (sequence_rawseti _ results value fills.array present short)

theorem decodeValues_fills (cb : DecodeCallback) (field : Field) (start : DecodeUd)
    (fresh : start.arrayTag ≠ some field.tag) (value : Nat → UInt64) (results : List LuaValue)
    (present : ∀ result ∈ results, result ≠ nil) (short : results.length < 2 ^ 63)
    (step : ∀ i (inside : i < results.length) ud, cb ud (i + 1) (.qword (value i)) =
      .ok (setValue border (newArray border ud field (i + 1)) field (i + 1)
        (results.get ⟨i, inside⟩))) :
    ∃ ud, decodeValues cb value results.length start = .ok ud ∧
      Filled border field (Sequence · results) start results.length ud := by
  induction results using List.reverseRecOn with
  | nil => exact ⟨start, rfl, .start fresh sequence_nil⟩
  | append_singleton results result ih =>
    have count : (results ++ [result]).length = results.length + 1 := by simp
    rw [count] at short ⊢
    obtain ⟨ud, decoded, filled⟩ := ih
      (fun other inside => present other (List.mem_append_left _ inside)) (by omega)
      (fun i inside ud => by
        have earlier := step i (by omega) ud
        simpa [List.getElem_append_left inside] using earlier)
    have last := step results.length (by omega) ud
    simp only [List.get_eq_getElem, List.getElem_concat_length] at last
    refine ⟨_, ?_, .next _ _ (setValue_fills border field results start ud result
      (present result (by simp)) short filled)⟩
    rw [decodeValues, List.range_succ, List.foldlM_append, ← decodeValues, decoded]
    simp only [bind, Except.bind, List.foldlM_cons, List.foldlM_nil, last]
    rfl

theorem length_fillSize (data : List UInt8) : (fillSize data).length = data.length + 4 := by
  simp [fillSize, sizeofLength]
  omega

theorem todword_fillSize (data rest : List UInt8) (small : data.length < 2 ^ 32) :
    (todword (fillSize data ++ rest)).toNat = data.length := by
  rw [fillSize, sizeofLength, List.append_assoc, todword_bytes, UInt32.toNat_ofNat']
  exact Nat.mod_eq_of_lt small

theorem drop_fillSize (data rest : List UInt8) :
    (fillSize data ++ rest).drop sizeofLength = data ++ rest := by
  rw [fillSize, List.append_assoc]
  exact List.drop_left' (LittleEndian.length_bytes _ _)

theorem decodeArrayObject_fills {α β : Type} (cb : DecodeCallback) (field : Field)
    (start : DecodeUd) (wire : α → List UInt8 → Prop) (agree : α → β → Prop)
    (holds : List β → Entries → Prop) (all : List α)
    (step : ∀ before element after done bytes ud, all = before ++ element :: after →
      List.Forall₂ agree before done → wire element bytes →
      Filled border field (holds done) start done.length ud →
      ∃ result next, cb ud (done.length + 1) (.bytes bytes) = .ok next ∧ agree element result ∧
        Fills border field (holds (done ++ [result])) start next)
    (before elements : List α) (whole : all = before ++ elements) (payloads : List (List UInt8))
    (written : List.Forall₂ wire elements payloads) (turns : Nat)
    (enough : payloads.length ≤ turns) (small : ∀ bytes ∈ payloads, bytes.length < 2 ^ 32)
    (done : List β) (earlier : List.Forall₂ agree before done) (ud : DecodeUd)
    (filled : Filled border field (holds done) start done.length ud) :
    ∃ results next,
      decodeArrayObject cb turns (done.length + 1) (payloads.flatMap fillSize) ud = .ok next ∧
        List.Forall₂ agree all results ∧
        Filled border field (holds results) start results.length next := by
  induction written generalizing before turns done ud with
  | nil =>
    rw [List.append_nil] at whole
    subst whole
    refine ⟨done, ud, ?_, earlier, filled⟩
    cases turns with
    | zero => rfl
    | succ turns => rfl
  | @cons element bytes elements payloads item items ih =>
    cases turns with
    | zero => simp at enough
    | succ turns =>
      obtain ⟨result, next, decoded, agrees, fills⟩ :=
        step before element elements done bytes ud whole earlier item filled
      have split : all = (before ++ [element]) ++ elements := by simp [whole]
      have last : done.length + 1 + 1 = (done ++ [result]).length + 1 := by simp
      obtain ⟨results, final, rest, agreed, complete⟩ := ih (before ++ [element]) split turns
        (by simpa using enough) (fun other inside => small other (List.mem_cons_of_mem _ inside))
        (done ++ [result]) (List.rel_append earlier (.cons agrees .nil)) next
        (by
          rw [List.length_append]
          exact .next _ _ fills)
      refine ⟨results, final, ?_, agreed, complete⟩
      have long : sizeofLength ≤ (fillSize bytes ++ payloads.flatMap fillSize).length := by
        rw [List.length_append, length_fillSize, sizeofLength]
        omega
      have some : (fillSize bytes ++ payloads.flatMap fillSize).length ≠ 0 := by
        rw [List.length_append, length_fillSize]
        omega
      have word := todword_fillSize bytes (payloads.flatMap fillSize) (small bytes List.mem_cons_self)
      rw [decodeArrayObject, List.flatMap_cons, if_neg some, if_neg (Nat.not_lt.mpr long)]
      simp only [word, drop_fillSize]
      rw [if_neg (by simp), List.take_left, List.drop_left, decoded, last]
      exact rest

structure Decoded (schema : Schema) (type : Nat) (table : Entries) (main : Option Nat)
    (ud : DecodeUd) : Prop where
  matched : Matches schema type table ud.result
  key : ∀ field ∈ (schema type).f, field.array = false → main = some field.tag →
    rawget ud.result (.string field.name) ≠ nil → ud.key = rawget ud.result (.string field.name)

def DecodesStruct (schema : Schema) (struct : DecodeStruct) (payload : Payload) : Prop :=
  ∀ type table bytes main, payload type table bytes →
    ∃ ud, struct type bytes main = .ok (bytes.length, ud) ∧ Decoded schema type table main ud

section items

variable (schema : Schema) (struct : DecodeStruct) (payload : Payload)
  (structs : DecodesStruct schema struct payload) (field : Field)

theorem decode_integer (type : field.type = .integer) (ud : DecodeUd) (index : Nat) (v : Int64) :
    decode border (some struct) field ud index (.qword v.toUInt64) =
      .ok (setValue border (newArray border ud field index) field index (integerValue v)) := by
  simp only [decode, type, Int64.toInt64_toUInt64]
  rfl

theorem decode_boolean (type : field.type = .boolean) (ud : DecodeUd) (index : Nat) (v : Bool)
    (word : UInt64) (same : word = if v then 1 else 0) :
    decode border (some struct) field ud index (.qword word) =
      .ok (setValue border (newArray border ud field index) field index (booleanValue v)) := by
  simp only [decode, type, same]
  cases v <;> rfl

include structs in
theorem decode_bytes (unkeyed : field.key = none) (value : LuaValue) (bytes : List UInt8)
    (item : ItemWire payload field value (.bytes bytes)) (ud : DecodeUd) (index : Nat) :
    ∃ result, decode border (some struct) field ud index (.bytes bytes) =
        .ok (setValue border (newArray border ud field index) field index result) ∧
      result ≠ nil ∧ Agrees schema (.item field) value result := by
  cases item with
  | string _ type =>
    refine ⟨.scalar (.string bytes), ?_, by simp [nil], .string field _⟩
    simp only [decode, type]
    rfl
  | struct rawlen entries _ type written =>
    obtain ⟨sub, decoded, result⟩ := structs field.st entries bytes none written
    refine ⟨.table (border sub.result) sub.result, ?_, by simp [nil], ?_⟩
    · simp only [decode, type, decodeStruct, unkeyed, decoded]
      change (if bytes.length ≠ bytes.length then _ else _) = _
      rw [if_neg (by simp)]
      rfl
    · exact .struct field rawlen _ entries _ result.matched.plain result.matched.fields

theorem drop_flatMap {α : Type} (width : Nat) (f : α → List UInt8)
    (length : ∀ a, (f a).length = width) (list : List α) (rest : List UInt8) (i : Nat)
    (inside : i < list.length) :
    ∃ tail, (list.flatMap f ++ rest).drop (i * width) = f (list.get ⟨i, inside⟩) ++ tail := by
  induction list generalizing i with
  | nil => simp at inside
  | cons first list ih =>
    cases i with
    | zero => exact ⟨list.flatMap f ++ rest, by simp⟩
    | succ i =>
      obtain ⟨tail, dropped⟩ := ih i (by simpa using inside)
      refine ⟨tail, ?_⟩
      rw [List.flatMap_cons, List.append_assoc, Nat.succ_mul, Nat.add_comm, ← List.drop_drop,
        List.drop_left' (length first), dropped]
      rfl

theorem arrayBytes_element (values : List Int64) (rest : List UInt8) (i : Nat)
    (inside : i < values.length) :
    ∃ tail, (arrayBytes values ++ rest).drop (i * arrayWidth values) =
      LittleEndian.bytes (arrayWidth values) (values.get ⟨i, inside⟩).toUInt64.toNat ++ tail :=
  drop_flatMap _ _ (fun _ => LittleEndian.length_bytes _ _) values rest i inside

theorem narrow_of_width (values : List Int64) (four : arrayWidth values = 4) :
    ∀ v ∈ values, Narrow v := by
  by_contra wide
  rw [arrayWidth, if_neg wide] at four
  contradiction

theorem decodeArray_integers (cb : DecodeCallback) (type : field.type = .integer)
    (values : List Int64) (rest : List UInt8) (start : DecodeUd) :
    ∃ value : Nat → UInt64,
      decodeArray cb field (arrayBytes values).length.succ
        (UInt8.ofNat (arrayWidth values) :: arrayBytes values ++ rest) start =
          decodeValues cb value values.length start ∧
        ∀ i (inside : i < values.length), value i = (values.get ⟨i, inside⟩).toUInt64 := by
  have length := length_arrayBytes values
  have room : ¬(arrayBytes values ++ rest).length < (arrayBytes values).length := by simp
  rcases arrayWidth_cases values with four | eight
  · refine ⟨fun i => expand64 (todword ((arrayBytes values ++ rest).drop (i * 4))), ?_, ?_⟩
    · simp only [decodeArray, type, four, List.cons_append]
      rw [if_neg (by omega), if_pos (by decide), Nat.succ_sub_one, if_neg (by rw [length, four]; omega),
        if_neg room, length, four, Nat.mul_div_cancel _ (by norm_num)]
    · intro i inside
      obtain ⟨tail, element⟩ := arrayBytes_element values rest i inside
      have narrow := narrow_of_width values four _ (List.get_mem values ⟨i, inside⟩)
      rw [four] at element
      simp only [element]
      rw [← bytes_low, todword_bytes, UInt32.ofNat_toNat, expand64_low _ narrow]
  · refine ⟨fun i => toqword ((arrayBytes values ++ rest).drop (i * 8)), ?_, ?_⟩
    · simp only [decodeArray, type, eight, List.cons_append]
      rw [if_neg (by omega), if_neg (by decide), if_pos (by decide), Nat.succ_sub_one,
        if_neg (by rw [length, eight]; omega), if_neg room, length, eight,
        Nat.mul_div_cancel _ (by norm_num)]
    · intro i inside
      obtain ⟨tail, element⟩ := arrayBytes_element values rest i inside
      rw [eight] at element
      simp only [element]
      exact toqword_bytes _ tail

theorem fills_of_filled (holds : Entries → Prop) (start ud : DecodeUd) (count : Nat)
    (some : count ≠ 0) (filled : Filled border field holds start count ud) :
    Fills border field holds start ud := by
  cases filled with
  | start => exact absurd rfl some
  | next _ _ fills => exact fills

theorem payload_count (payloads : List (List UInt8)) :
    payloads.length ≤ (payloads.flatMap fillSize).length := by
  induction payloads with
  | nil => simp
  | cons bytes payloads ih =>
    rw [List.flatMap_cons, List.length_append, length_fillSize, List.length_cons]
    omega

theorem payload_small (payloads : List (List UInt8)) {bound : Nat}
    (small : (payloads.flatMap fillSize).length < bound) :
    ∀ bytes ∈ payloads, bytes.length < bound := by
  induction payloads with
  | nil => simp
  | cons first payloads ih =>
    rw [List.flatMap_cons, List.length_append, length_fillSize] at small
    intro bytes inside
    rcases List.mem_cons.mp inside with rfl | inside
    · omega
    · exact ih (by omega) bytes inside

theorem decodeArray_objects (cb : DecodeCallback)
    (type : field.type = .string ∨ field.type = .struct) (payloads : List (List UInt8))
    (rest : List UInt8) (start : DecodeUd) :
    decodeArray cb field (payloads.flatMap fillSize).length (payloads.flatMap fillSize ++ rest)
        start =
      decodeArrayObject cb (payloads.flatMap fillSize).length 1 (payloads.flatMap fillSize) start := by
  rcases type with type | type
  all_goals
    simp only [decodeArray, type]
    rw [if_neg (by simp), List.take_left]

include structs in
theorem decodeArray_sequence (unkeyed : field.key = none) (start : DecodeUd)
    (fresh : start.arrayTag ≠ some field.tag) (values : List LuaValue) (buffer rest : List UInt8)
    (nonempty : values ≠ []) (short : values.length < 2 ^ 63)
    (array : ArrayWire payload field values buffer) (small : buffer.length < 2 ^ 32) :
    ∃ results ud, decodeArray (decode border (some struct) field) field buffer.length
        (buffer ++ rest) start = .ok ud ∧
      List.Forall₂ (Agrees schema (.item field)) values results ∧
      Fills border field (Sequence · results) start ud := by
  cases array with
  | integers values type =>
    obtain ⟨value, decoded, word⟩ := decodeArray_integers field
      (decode border (some struct) field) type values rest start
    obtain ⟨ud, read, filled⟩ := decodeValues_fills border (decode border (some struct) field) field
      start fresh value (values.map integerValue) (by simp [integerValue, nil]) short (by
        intro i inside ud
        rw [List.length_map] at inside
        rw [word i inside, decode_integer border struct field type]
        simp)
    rw [List.length_map] at read
    refine ⟨values.map integerValue, ud, decoded.trans read, ?_, ?_⟩
    · rw [List.forall₂_map_left_iff, List.forall₂_map_right_iff, List.forall₂_same]
      intro v _
      exact .integer field v
    · exact fills_of_filled border field _ start ud _ (by simpa using nonempty) filled
  | booleans values type =>
    obtain ⟨ud, read, filled⟩ := decodeValues_fills border (decode border (some struct) field) field
      start fresh (fun i => ((values.map booleanByte ++ rest).getD i 0).toUInt64)
      (values.map booleanValue) (by
        intro result inside
        obtain ⟨v, _, rfl⟩ := List.mem_map.mp inside
        simp [booleanValue, nil]) short (by
        intro i inside ud
        rw [List.length_map] at inside
        have byte : (values.map booleanByte ++ rest).getD i 0 =
            booleanByte (values.get ⟨i, inside⟩) := by
          rw [List.getD_append _ _ _ _ (by simpa using inside)]
          simp [List.getD_eq_getElem?_getD, inside]
        rw [byte, decode_boolean border struct field type ud _ (values.get ⟨i, inside⟩) _ (by
          cases values.get ⟨i, inside⟩ <;> rfl)]
        simp)
    rw [List.length_map] at read
    refine ⟨values.map booleanValue, ud, ?_, ?_, ?_⟩
    · simp only [decodeArray, type]
      rw [if_neg (by simp), List.length_map]
      exact read
    · rw [List.forall₂_map_left_iff, List.forall₂_map_right_iff, List.forall₂_same]
      intro v _
      exact .boolean field v
    · exact fills_of_filled border field _ start ud _ (by simpa using nonempty) filled
  | objects _ payloads type items =>
    have read := decodeArray_objects field (decode border (some struct) field) type payloads
      rest start
    have payloadSmall := payload_small payloads small
    obtain ⟨results, ud, decoded, agreed, filled⟩ := decodeArrayObject_fills border
      (decode border (some struct) field) field start
      (fun value bytes => ItemWire payload field value (.bytes bytes))
      (Agrees schema (.item field)) (fun results array => Sequence array results) values (by
        intro before value after done bytes ud whole earlier item filled
        obtain ⟨result, decoded, present, agrees⟩ := decode_bytes border schema struct payload
          structs field unkeyed value bytes item ud (done.length + 1)
        refine ⟨result, _, decoded, agrees, setValue_fills border field done start ud result present
          ?_ filled⟩
        have count := earlier.length_eq
        rw [whole, List.length_append, List.length_cons] at short
        omega)
      [] values rfl payloads items _ (payload_count payloads) payloadSmall [] .nil start
      (.start fresh sequence_nil)
    refine ⟨results, ud, read.trans decoded, agreed, ?_⟩
    refine fills_of_filled border field _ start ud _ ?_ filled
    have count := agreed.length_eq
    rw [← count]
    simpa using nonempty

theorem agrees_key (main : Field) (value key : LuaValue) (array : Entries) (element : LuaValue)
    (agrees : Agrees schema (.item main) value key) (present : element.isNil = false)
    (fresh : ∀ scalar, key = .scalar scalar → ∀ entry ∈ array, entry.1 ≠ .scalar scalar) :
    rawset array key element = .ok (array ++ [(key, element)]) := by
  cases agrees with
  | integer | boolean | string =>
    exact congrArg Except.ok (store_fresh array _ element present (fresh _ rfl))
  | struct =>
    rw [rawset]
    · simp [present]
    · simp

theorem agrees_scalar (main : Field) (value : LuaValue) (key : Scalar)
    (agrees : Agrees schema (.item main) value (.scalar key)) : value = .scalar key := by
  cases agrees <;> rfl

theorem agrees_single (main : Field) (value result : LuaValue) (one : main.array = false)
    (present : value ≠ nil) (agrees : Agrees schema (.field main) value result) :
    Agrees schema (.item main) value result := by
  cases agrees with
  | absent => exact absurd rfl present
  | single _ _ _ _ item => exact item
  | empty _ _ _ many | array _ _ _ _ _ _ _ many | map _ _ _ _ _ _ _ many =>
    rw [one] at many
    contradiction

theorem agrees_present (main : Field) (value result : LuaValue)
    (agrees : Agrees schema (.item main) value result) : result.isNil = false := by
  cases agrees <;> rfl

include structs in
theorem decode_keyed (main : Field) (keyed : field.key = some main.tag)
    (type : field.type = .struct) (inside : main ∈ (schema field.st).f)
    (one : main.array = false) (entry : LuaValue × LuaValue) (present : entry.1 ≠ nil)
    (own : ∃ rawlen element, entry.2 = .table rawlen element ∧
      entry.1 = rawget element (.string main.name))
    (bytes : List UInt8) (item : ItemWire payload field entry.2 (.bytes bytes))
    (start ud : DecodeUd) (count : Nat) (order : Entries)
    (filled : Filled border field (fun array => array = order) start count ud)
    (fresh : ∀ scalar, entry.1 = .scalar scalar → ∀ other ∈ order, other.1 ≠ .scalar scalar) :
    ∃ result next, decode border (some struct) field ud (count + 1) (.bytes bytes) = .ok next ∧
      (Agrees schema (.item main) entry.1 result.1 ∧ Agrees schema (.item field) entry.2 result.2) ∧
      Fills border field (fun array => array = order ++ [result]) start next := by
  obtain ⟨rawlen, element, value, key⟩ := own
  rw [value] at item ⊢
  cases item with
  | struct _ _ _ _ written =>
    obtain ⟨sub, decoded, result⟩ := structs field.st element bytes (some main.tag) written
    have agrees := agrees_single schema main _ _ one (key ▸ present) (result.matched.fields main inside)
    have some := agrees_present schema main _ _ agrees
    have mainKey := result.key main inside one rfl (by
      intro missing
      rw [missing] at some
      contradiction)
    rw [← key, ← mainKey] at agrees
    rw [← mainKey] at some
    have fills := newArray_fills border field _ start ud count (count + 1) (Nat.succ_pos _) filled
    refine ⟨(sub.key, .table (border sub.result) sub.result), _, ?_, ⟨agrees, ?_⟩,
      setArray_fills border field _ _ start _ (order ++ [_]) fills rfl⟩
    · have set := agrees_key schema main entry.1 sub.key
        (newArray border ud field (count + 1)).array (.table (border sub.result) sub.result) agrees
        rfl (by
          intro scalar same other member
          rw [same] at agrees
          rw [fills.array] at member
          exact fresh scalar (agrees_scalar schema main _ scalar agrees) other member)
      simp only [decode, type, decodeStruct, keyed, decoded]
      change (if bytes.length ≠ bytes.length then _ else _) = _
      rw [if_neg (by simp), some, if_neg (by simp), set, fills.array]
      rfl
    · exact .struct field rawlen _ element _ result.matched.plain result.matched.fields

include structs in
theorem decodeArray_keyed (entries : Entries) (main : Field) (keyed : field.key = some main.tag)
    (type : field.type = .struct) (inside : main ∈ (schema field.st).f)
    (one : main.array = false)
    (distinct : entries.Pairwise fun first second =>
      ∀ key, first.1 = .scalar key → second.1 ≠ .scalar key)
    (own : ∀ entry ∈ entries, ∃ rawlen element, entry.2 = .table rawlen element ∧
      entry.1 = rawget element (.string main.name))
    (present : ∀ entry ∈ entries, entry.1 ≠ nil) (start : DecodeUd)
    (fresh : start.arrayTag ≠ some field.tag) (buffer rest : List UInt8) (nonempty : entries ≠ [])
    (array : ArrayWire payload field (entries.map Prod.snd) buffer)
    (small : buffer.length < 2 ^ 32) :
    ∃ order ud, decodeArray (decode border (some struct) field) field buffer.length
        (buffer ++ rest) start = .ok ud ∧
      List.Forall₂ (fun entry result => Agrees schema (.item main) entry.1 result.1 ∧
        Agrees schema (.item field) entry.2 result.2) entries order ∧
      Fills border field (fun array => array = order) start ud := by
  generalize same : entries.map Prod.snd = values at array
  cases array with
  | integers _ other | booleans _ other =>
    rw [type] at other
    contradiction
  | objects _ payloads objects items =>
    have read := decodeArray_objects field (decode border (some struct) field) objects payloads
      rest start
    rw [← same, List.forall₂_map_left_iff] at items
    obtain ⟨order, ud, decoded, agreed, filled⟩ := decodeArrayObject_fills border
      (decode border (some struct) field) field start
      (fun entry bytes => ItemWire payload field entry.2 (.bytes bytes))
      (fun entry result => Agrees schema (.item main) entry.1 result.1 ∧
        Agrees schema (.item field) entry.2 result.2) (fun order array => array = order) entries (by
        intro before entry after done bytes ud whole earlier item filled
        have member : entry ∈ entries := by simp [whole]
        refine decode_keyed border schema struct payload structs field main keyed type inside one
          entry (present entry member) (own entry member) bytes item start ud _ done filled ?_
        -- An element with the same key would be one of those before it.
        intro key mine other found theirs
        obtain ⟨i, bound, rfl⟩ := List.getElem_of_mem found
        have count := earlier.length_eq
        have agrees := ((List.forall₂_iff_get.mp earlier).2 i (by omega) bound).1
        rw [List.get_eq_getElem, List.get_eq_getElem, theirs] at agrees
        have first := agrees_scalar schema main _ key agrees
        rw [whole, List.pairwise_append] at distinct
        exact distinct.2.2 _ (List.getElem_mem _) entry List.mem_cons_self key first mine)
      [] entries rfl payloads items _ (payload_count payloads) (payload_small payloads small) []
      .nil start (.start fresh rfl)
    refine ⟨order, ud, read.trans decoded, agreed, ?_⟩
    refine fills_of_filled border field _ start ud _ ?_ filled
    rw [← agreed.length_eq]
    simpa using nonempty

end items

structure Sets (field : Field) (value : LuaValue) (start ud : DecodeUd) : Prop where
  result : ∀ key, rawget ud.result key =
    if key = .string field.name then value else rawget start.result key
  entries : ∀ entry ∈ ud.result, entry ∈ start.result ∨ entry.1 = .scalar (.string field.name)
  mainindexTag : ud.mainindexTag = start.mainindexTag
  key : field.array = false → start.mainindexTag = some field.tag → ud.key = value
  otherKey : start.mainindexTag ≠ some field.tag → ud.key = start.key
  arrayTag : ud.arrayTag = start.arrayTag ∨ ud.arrayTag = some field.tag

theorem sets_of_fills (field : Field) (holds : Entries → Prop) (start ud : DecodeUd)
    (many : field.array = true) (fills : Fills border field holds start ud) :
    Sets field (.table (border ud.array) ud.array) start ud where
  result := fills.result
  entries := fills.entries
  mainindexTag := fills.mainindexTag
  key one := by
    rw [many] at one
    contradiction
  otherKey _ := fills.key
  arrayTag := .inr fills.arrayTag

theorem setValue_sets (field : Field) (value : LuaValue) (start : DecodeUd) :
    Sets field value start
      (setValue border (newArray border start field 0) field 0 value) := by
  have none : newArray border start field 0 = start := if_neg (by simp)
  have stored (ud : DecodeUd) : ∀ entry ∈ store ud.result (.string field.name) value,
      entry ∈ ud.result ∨ entry.1 = .scalar (.string field.name) := by
    intro entry inside
    rcases mem_store _ _ _ _ inside with old | rfl
    · exact .inl old
    · exact .inr rfl
  rw [none, setValue, if_neg (by simp)]
  by_cases main : start.mainindexTag = some field.tag
  · simp only [if_pos main]
    exact ⟨fun key => rawget_store _ _ _ _, stored start, rfl, fun _ _ => rfl,
      fun other => absurd main other, .inl rfl⟩
  · simp only [if_neg main]
    exact ⟨fun key => rawget_store _ _ _ _, stored start, rfl, fun _ same => absurd same main,
      fun _ => rfl, .inl rfl⟩

-- No main index is an array; `decode` takes a key from a single field only.
def SingleMain (schema : Schema) : Prop :=
  ∀ type, ∀ field ∈ (schema type).f, ∀ main ∈ (schema field.st).f,
    field.key = some main.tag → main.array = false

section records

variable (schema : Schema) (struct : DecodeStruct) (payload : Payload)
  (structs : DecodesStruct schema struct payload) (field : Field)

include structs in
theorem decodeArray_field
    (single : ∀ main ∈ (schema field.st).f, field.key = some main.tag → main.array = false)
    (many : field.array = true) (rawlen : Nat) (entries : Entries) (values : List LuaValue)
    (elements : Elements schema field entries values) (nonempty : values ≠ [])
    (buffer rest : List UInt8) (array : ArrayWire payload field values buffer)
    (small : buffer.length < 2 ^ 32) (start : DecodeUd)
    (fresh : start.arrayTag ≠ some field.tag) :
    ∃ value ud, decodeArray (decode border (some struct) field) field buffer.length
        (buffer ++ rest) start = .ok ud ∧ value ≠ nil ∧
      Agrees schema (.field field) (.table rawlen entries) value ∧ Sets field value start ud := by
  cases elements with
  | sequence _ unkeyed sequence =>
    obtain ⟨results, ud, decoded, agreed, fills⟩ := decodeArray_sequence border schema struct payload
      structs field unkeyed start fresh values buffer rest nonempty sequence.short array small
    refine ⟨_, ud, decoded, by simp [nil], ?_, sets_of_fills border field _ start ud many fills⟩
    have items := List.forall₂_iff_get.mp agreed
    exact .array field rawlen _ entries _ values results many unkeyed nonempty sequence fills.array
      items.1 items.2
  | keyed main keyed type inside distinct own present =>
    have some : entries ≠ [] := by simpa using nonempty
    obtain ⟨order, ud, decoded, agreed, fills⟩ := decodeArray_keyed border schema struct payload
      structs field entries main keyed type inside (single main inside keyed) distinct own present
      start fresh buffer rest some array small
    refine ⟨_, ud, decoded, by simp [nil], ?_, sets_of_fills border field _ start ud many fills⟩
    have items := List.forall₂_iff_get.mp agreed
    exact .map field main rawlen _ entries _ order many keyed inside some
      (List.Perm.of_eq fills.array) items.1 (fun i one other => (items.2 i one other).1)
      (fun i one other => (items.2 i one other).2)

theorem decodeData_single (one : field.array = false) (bytes rest : List UInt8)
    (small : bytes.length < 2 ^ 32) (type : field.type = .string ∨ field.type = .struct)
    (cb : DecodeCallback) (start : DecodeUd) :
    decodeData cb field (fillSize bytes ++ rest) start = cb start 0 (.bytes bytes) := by
  have word := todword_fillSize bytes rest small
  rcases type with type | type
  all_goals
    simp only [decodeData, one, type, word, drop_fillSize]
    rw [if_neg (by simp), if_neg (by simp), List.take_left]

theorem decodeData_array (many : field.array = true) (buffer rest : List UInt8)
    (small : buffer.length < 2 ^ 32) (cb : DecodeCallback) (start : DecodeUd) :
    decodeData cb field (fillSize buffer ++ rest) start =
      decodeArray cb field buffer.length (buffer ++ rest) start := by
  rw [decodeData]
  simp only [todword_fillSize buffer rest small, drop_fillSize]
  rw [if_pos many]

theorem decodeData_word (one : field.array = false) (type : field.type = .integer) (v : UInt32)
    (rest : List UInt8) (cb : DecodeCallback) (start : DecodeUd) :
    decodeData cb field (fillSize (LittleEndian.bytes 4 v.toNat) ++ rest) start =
      cb start 0 (.qword (expand64 v)) := by
  have word := todword_fillSize (LittleEndian.bytes 4 v.toNat) rest (by simp)
  simp only [decodeData, one, type, word, drop_fillSize, LittleEndian.length_bytes]
  rw [if_neg (by simp), if_pos trivial, todword_bytes, UInt32.ofNat_toNat]

theorem decodeData_qword (one : field.array = false) (type : field.type = .integer) (v : UInt64)
    (rest : List UInt8) (cb : DecodeCallback) (start : DecodeUd) :
    decodeData cb field (fillSize (LittleEndian.bytes 8 v.toNat) ++ rest) start =
      cb start 0 (.qword v) := by
  have word := todword_fillSize (LittleEndian.bytes 8 v.toNat) rest (by simp)
  simp only [decodeData, one, type, word, drop_fillSize, LittleEndian.length_bytes]
  rw [if_neg (by simp), if_neg (by simp), if_neg (by simp), toqword_bytes]

variable (st : SprotoType) (found : findtag st field.tag = some field)

include found in
theorem decodeLoop_data (bytes rest : List UInt8) (small : bytes.length < 2 ^ 31)
    (words : List Nat) (start ud : DecodeUd)
    (decoded : decodeData (decode border (some struct) field) field (fillSize bytes ++ rest) start =
      .ok ud) :
    decodeLoop border (some struct) st (0 :: words) ((field.tag : Int) - 1) (fillSize bytes ++ rest)
        start =
      decodeLoop border (some struct) st words field.tag rest ud := by
  have word := todword_fillSize bytes rest (by omega)
  have size : (todword (fillSize bytes ++ rest) + 4).toNat = (fillSize bytes).length := by
    rw [UInt32.toNat_add, word, length_fillSize]
    change (bytes.length + 4) % 2 ^ 32 = _
    exact Nat.mod_eq_of_lt (by omega)
  have long : ¬((fillSize bytes ++ rest).length < sizeofLength ∨
      (fillSize bytes ++ rest).length < (fillSize bytes).length) := by
    rw [List.length_append, length_fillSize, sizeofLength]
    omega
  rw [decodeLoop]
  simp only [size, Int.sub_add_cancel, found, decoded]
  rw [if_neg (by norm_num), if_pos (by norm_num), if_neg long, List.drop_left]
  rfl

include found in
theorem decodeLoop_small (v : Nat) (rest : List UInt8) (one : field.array = false)
    (type : field.type = .integer ∨ field.type = .boolean) (words : List Nat)
    (start ud : DecodeUd)
    (decoded : decode border (some struct) field start 0 (.qword (UInt64.ofNat v)) = .ok ud) :
    decodeLoop border (some struct) st ((v + 1) * 2 :: words) ((field.tag : Int) - 1) rest start =
      decodeLoop border (some struct) st words field.tag rest ud := by
  have even : ¬(v + 1) * 2 % 2 = 1 := by omega
  have half : ((((v + 1) * 2 / 2 : Nat) : Int) - 1) = v := by omega
  have plain : ¬(field.array = true ∨ field.type ≠ .integer ∧ field.type ≠ .boolean) := by
    rcases type with type | type
    all_goals simp [one, type]
  rw [decodeLoop]
  simp only [Int.sub_add_cancel, half, found, Int.toNat_natCast, decoded]
  rw [if_neg even, if_neg (by omega), if_neg plain]
  rfl

theorem itemWire_small (value : LuaValue) (v : UInt32)
    (item : ItemWire payload field value (.word v)) (fits : v < 0x7fff) (start : DecodeUd) :
    ∃ result, decode border (some struct) field start 0 (.qword (UInt64.ofNat v.toNat)) =
        .ok (setValue border (newArray border start field 0) field 0 result) ∧
      result ≠ nil ∧ Agrees schema (.item field) value result ∧
      (field.type = .integer ∨ field.type = .boolean) := by
  cases item with
  | narrow w type narrow =>
    have word : UInt64.ofNat (low w).toNat = w.toUInt64 := by
      have positive : (low w).toNat < 2 ^ 31 :=
        lt_trans (UInt32.lt_iff_toNat_lt.mp fits) (by decide)
      rw [← expand64_low w narrow, expand64, if_neg ((sign_bit _).not.mpr (by omega)),
        ← UInt64.toNat_inj, UInt64.toNat_ofNat', UInt32.toNat_toUInt64]
      exact Nat.mod_eq_of_lt (by omega)
    refine ⟨integerValue w, ?_, by simp [integerValue, nil], .integer field w, .inl type⟩
    rw [word]
    exact decode_integer border struct field type start 0 w
  | boolean b type =>
    refine ⟨booleanValue b, ?_, by simp [booleanValue, nil], .boolean field b, .inr type⟩
    exact decode_boolean border struct field type start 0 b _ (by cases b <;> rfl)

include structs found in
theorem record_decodes
    (single : ∀ main ∈ (schema field.st).f, field.key = some main.tag → main.array = false)
    (value : LuaValue) (record : Nat) (data rest : List UInt8)
    (wire : FieldWire schema payload field value record data) (limit : data.length < 2 ^ 31)
    (words : List Nat) (start : DecodeUd) (fresh : start.arrayTag ≠ some field.tag) :
    ∃ result ud, result ≠ nil ∧ Agrees schema (.field field) value result ∧
      Sets field result start ud ∧
      decodeLoop border (some struct) st (record :: words) ((field.tag : Int) - 1) (data ++ rest)
          start =
        decodeLoop border (some struct) st words field.tag rest ud := by
  cases wire with
  | small _ v one item fits =>
    obtain ⟨result, decoded, present, agrees, type⟩ := itemWire_small border schema struct payload
      field value v item fits start
    exact ⟨result, _, present, .single field value result one agrees,
      setValue_sets border field result start,
      decodeLoop_small border struct field st found v.toNat rest one type words start _ decoded⟩
  | word _ v one item large =>
    cases item with
    | narrow w type narrow =>
      refine ⟨integerValue w, _, by simp [integerValue, nil],
        .single field _ _ one (.integer field w), setValue_sets border field _ start, ?_⟩
      refine decodeLoop_data border struct field st found _ rest (by simp) words start _ ?_
      rw [decodeData_word field one type, expand64_low w narrow]
      exact decode_integer border struct field type start 0 w
    | boolean b type =>
      cases b
      · exact absurd (by decide) large
      · exact absurd (by decide) large
  | qword _ v one item =>
    cases item with
    | wide w type =>
      refine ⟨integerValue w, _, by simp [integerValue, nil],
        .single field _ _ one (.integer field w), setValue_sets border field _ start, ?_⟩
      refine decodeLoop_data border struct field st found _ rest (by simp) words start _ ?_
      rw [decodeData_qword field one type]
      exact decode_integer border struct field type start 0 w
  | object _ bytes one unkeyed item =>
    rw [length_fillSize] at limit
    have type : field.type = .string ∨ field.type = .struct := by
      cases item with
      | string _ type => exact .inl type
      | struct _ _ _ type => exact .inr type
    obtain ⟨result, decoded, present, agrees⟩ := decode_bytes border schema struct payload structs
      field unkeyed value bytes item start 0
    refine ⟨result, _, present, .single field value result one agrees,
      setValue_sets border field result start, ?_⟩
    refine decodeLoop_data border struct field st found bytes rest (by omega) words start _ ?_
    rw [decodeData_single field one bytes rest (by omega) type]
    exact decoded
  | array rawlen entries values buffer many elements some array =>
    rw [length_fillSize] at limit
    obtain ⟨result, ud, decoded, present, agrees, sets⟩ := decodeArray_field border schema struct
      payload structs field single many rawlen entries values elements some buffer rest array
      (by omega) start fresh
    refine ⟨result, ud, present, agrees, sets, ?_⟩
    refine decodeLoop_data border struct field st found buffer rest (by omega) words start ud ?_
    rw [decodeData_array field many buffer rest (by omega)]
    exact decoded

end records

-- What is in the result when the records of the fields `done` have been read.
structure Read (schema : Schema) (table : Entries) (done : List Field) (ud : DecodeUd) : Prop where
  agree : ∀ field ∈ done, Agrees schema (.field field) (rawget table (.string field.name))
    (rawget ud.result (.string field.name))
  entries : ∀ entry ∈ ud.result, ∃ field ∈ done, entry.1 = .scalar (.string field.name)
  key : ∀ field ∈ done, field.array = false → ud.mainindexTag = some field.tag →
    rawget ud.result (.string field.name) ≠ nil → ud.key = rawget ud.result (.string field.name)
  tags : ∀ tag, ud.arrayTag = some tag → ∃ field ∈ done, field.tag = tag

theorem read_absent (schema : Schema) (table : Entries) (done : List Field) (field : Field)
    (ud : DecodeUd) (names : ∀ other ∈ done, other.name ≠ field.name)
    (missing : Agrees schema (.field field) (rawget table (.string field.name)) nil)
    (read : Read schema table done ud) : Read schema table (done ++ [field]) ud := by
  have none : rawget ud.result (.string field.name) = nil := by
    rcases rawget_cases ud.result (.string field.name) with ⟨none, _⟩ | ⟨entry, inside, same, _⟩
    · exact none
    · obtain ⟨other, member, name⟩ := read.entries entry inside
      rw [same] at name
      exact absurd (by simpa using name.symm) (names other member)
  refine ⟨?_, ?_, ?_, ?_⟩
  · intro other member
    rcases List.mem_append.mp member with old | new
    · exact read.agree other old
    · rw [List.mem_singleton.mp new, none]
      exact missing
  · intro entry inside
    obtain ⟨other, member, name⟩ := read.entries entry inside
    exact ⟨other, List.mem_append_left _ member, name⟩
  · intro other member one main present
    rcases List.mem_append.mp member with old | new
    · exact read.key other old one main present
    · rw [List.mem_singleton.mp new] at present
      exact absurd none present
  · intro tag selected
    obtain ⟨other, member, same⟩ := read.tags tag selected
    exact ⟨other, List.mem_append_left _ member, same⟩

theorem read_present (schema : Schema) (table : Entries) (done : List Field) (field : Field)
    (start ud : DecodeUd) (names : ∀ other ∈ done, other.name ≠ field.name)
    (tags : ∀ other ∈ done, other.tag ≠ field.tag) (value : LuaValue)
    (agrees : Agrees schema (.field field) (rawget table (.string field.name)) value)
    (sets : Sets field value start ud) (read : Read schema table done start) :
    Read schema table (done ++ [field]) ud := by
  have mine : rawget ud.result (.string field.name) = value := by
    rw [sets.result, if_pos rfl]
  have others (other : Field) (member : other ∈ done) :
      rawget ud.result (.string other.name) = rawget start.result (.string other.name) := by
    rw [sets.result, if_neg (by simpa using names other member)]
  refine ⟨?_, ?_, ?_, ?_⟩
  · intro other member
    rcases List.mem_append.mp member with old | new
    · rw [others other old]
      exact read.agree other old
    · rw [List.mem_singleton.mp new, mine]
      exact agrees
  · intro entry inside
    rcases sets.entries entry inside with old | new
    · obtain ⟨other, member, name⟩ := read.entries entry old
      exact ⟨other, List.mem_append_left _ member, name⟩
    · exact ⟨field, by simp, new⟩
  · intro other member one main present
    rw [sets.mainindexTag] at main
    rcases List.mem_append.mp member with old | new
    · rw [others other old] at present ⊢
      rw [sets.otherKey (by
        rw [main]
        simpa using tags other old)]
      exact read.key other old one main present
    · rw [List.mem_singleton.mp new] at one main ⊢
      rw [mine]
      exact sets.key one main
  · intro tag selected
    rcases sets.arrayTag with same | same
    · obtain ⟨other, member, held⟩ := read.tags tag (same ▸ selected)
      exact ⟨other, List.mem_append_left _ member, held⟩
    · rw [same] at selected
      exact ⟨field, by simp, by simpa using selected⟩

theorem decodeLoop_skip (struct : Option DecodeStruct) (st : SprotoType) (last : Int) (tag : Nat)
    (later : last < tag) (words : List Nat) (rest : List UInt8) (ud : DecodeUd) :
    decodeLoop border struct st (skipRecords last tag ++ words) last rest ud =
      decodeLoop border struct st words ((tag : Int) - 1) rest ud := by
  rw [skipRecords]
  split_ifs with gap
  · obtain ⟨n, distance⟩ : ∃ n : Nat, (tag : Int) - last - 1 - 1 = n := ⟨_, (Int.toNat_of_nonneg (by omega)).symm⟩
    have word : ((n : Int) * 2 + 1).toNat = n * 2 + 1 := by omega
    have half : (n * 2 + 1) / 2 = n := by omega
    rw [distance, word, List.singleton_append, decodeLoop]
    simp only [half]
    rw [if_pos (by omega)]
    congr 1
    omega
  · rw [List.nil_append]
    congr 1
    omega

section type

variable (schema : Schema) (struct : DecodeStruct) (payload : Payload)
  (structs : DecodesStruct schema struct payload) (single : SingleMain schema) (type : Nat)
  (ascending : Ascending (schema type)) (table : Entries)

include structs single ascending in
theorem fieldsWire_decodes (last : Int) (fields : List Field) (records : List Nat)
    (data : List UInt8) (wire : FieldsWire schema payload table last fields records data)
    (later : ∀ field ∈ fields, last < field.tag) (done : List Field)
    (whole : (schema type).f = done ++ fields) (limit : data.length < 2 ^ 31) (ud : DecodeUd)
    (read : Read schema table done ud) :
    ∃ final, decodeLoop border (some struct) (schema type) records last data ud =
        .ok ([], final) ∧
      Read schema table (schema type).f final ∧ final.mainindexTag = ud.mainindexTag := by
  induction wire generalizing done ud with
  | done last =>
    rw [List.append_nil] at whole
    rw [whole]
    exact ⟨ud, rfl, read, rfl⟩
  | absent last field fields records data missing rest ih =>
    have names : ∀ other ∈ done, other.name ≠ field.name := by
      have distinct := ascending.names
      rw [whole, List.map_append, List.nodup_append] at distinct
      intro other member
      exact distinct.2.2 _ (List.mem_map_of_mem member) _ (by simp)
    exact ih (fun other inside => later other (List.mem_cons_of_mem _ inside)) (done ++ [field])
      (by simp [whole]) limit ud (read_absent schema table done field ud names missing read)
  | present last field fields record records data more written rest ih =>
    have names : ∀ other ∈ done, other.name ≠ field.name := by
      have distinct := ascending.names
      rw [whole, List.map_append, List.nodup_append] at distinct
      intro other member
      exact distinct.2.2 _ (List.mem_map_of_mem member) _ (by simp)
    have tags := ascending.tags
    rw [whole, List.pairwise_append, List.pairwise_cons] at tags
    have earlier : ∀ other ∈ done, other.tag ≠ field.tag := fun other member =>
      (tags.2.2 other member field List.mem_cons_self).ne
    have member : field ∈ (schema type).f := by simp [whole]
    have fresh : ud.arrayTag ≠ some field.tag := by
      intro selected
      obtain ⟨other, before, same⟩ := read.tags field.tag selected
      exact earlier other before same
    rw [List.length_append] at limit
    obtain ⟨value, next, present, agrees, sets, step⟩ := record_decodes border schema struct payload
      structs field (schema type) (findtag_finds (schema type) ascending field member)
      (single type field member) _ record data more written (by omega) records ud fresh
    obtain ⟨final, decoded, complete, main⟩ := ih
      (fun other inside => by exact_mod_cast tags.2.1.1 other inside) (done ++ [field])
      (by simp [whole]) (by omega) next
      (read_present schema table done field ud next names earlier value agrees sets read)
    refine ⟨final, ?_, complete, main.trans sets.mainindexTag⟩
    rw [decodeLoop_skip border _ _ last field.tag (later field List.mem_cons_self), step]
    exact decoded

theorem record_small (field : Field) (value : LuaValue) (record : Nat) (data : List UInt8)
    (wire : FieldWire schema payload field value record data) : record < 2 ^ 16 := by
  cases wire with
  | small _ v _ _ fits =>
    have bound : v.toNat < 0x7fff := UInt32.lt_iff_toNat_lt.mp fits
    omega
  | word | qword | object | array => norm_num

theorem fieldsWire_records (last : Int) (fields : List Field) (records : List Nat)
    (data : List UInt8) (wire : FieldsWire schema payload table last fields records data)
    (tags : fields.Pairwise fun first second => first.tag < second.tag)
    (small : ∀ field ∈ fields, field.tag ≤ 0x7ffe) (low : -1 ≤ last) (high : last ≤ 0x7ffe)
    (later : ∀ field ∈ fields, last < field.tag) :
    (∀ record ∈ records, record < 2 ^ 16) ∧ (records.length : Int) ≤ 0x7ffe - last := by
  induction wire with
  | done last => exact ⟨by simp, by simpa using high⟩
  | absent last field fields records data missing rest ih =>
    rw [List.pairwise_cons] at tags
    exact ih tags.2 (fun other inside => small other (List.mem_cons_of_mem _ inside)) low high
      (fun other inside => later other (List.mem_cons_of_mem _ inside))
  | present last field fields record records data more written rest ih =>
    rw [List.pairwise_cons] at tags
    have here := later field List.mem_cons_self
    have tag := small field List.mem_cons_self
    obtain ⟨words, count⟩ := ih tags.2
      (fun other inside => small other (List.mem_cons_of_mem _ inside)) (by omega) (by omega)
      (fun other inside => by exact_mod_cast tags.1 other inside)
    have value := record_small schema payload field _ record data written
    constructor
    · intro word inside
      rcases List.mem_append.mp inside with skip | inside
      · rw [skipRecords] at skip
        split_ifs at skip
        · rw [List.mem_singleton.mp skip]
          omega
        · simp at skip
      · rcases List.mem_cons.mp inside with rfl | inside
        · exact value
        · exact words word inside
    · rw [List.length_append, List.length_cons, skipRecords]
      split_ifs
      · rw [List.length_singleton]
        omega
      · rw [List.length_nil]
        omega

theorem toword_bytes (n : Nat) (rest : List UInt8) (small : n < 2 ^ 16) :
    toword (LittleEndian.bytes 2 n ++ rest) = n := by
  rw [toword, List.take_left' (LittleEndian.length_bytes 2 n)]
  exact LittleEndian.value_bytes_of_lt 2 n small

theorem words_of_records (records : List Nat) (small : ∀ record ∈ records, record < 2 ^ 16)
    (data : List UInt8) :
    (List.range records.length).map (fun i =>
      toword ((records.flatMap (LittleEndian.bytes 2) ++ data).drop (i * sizeofField))) =
        records := by
  refine List.ext_get (by simp) ?_
  intro i first inside
  obtain ⟨tail, dropped⟩ := drop_flatMap 2 (LittleEndian.bytes 2)
    (fun n => LittleEndian.length_bytes 2 n) records data i inside
  simp only [List.get_eq_getElem, List.getElem_map, List.getElem_range]
  change toword (List.drop (i * 2) _) = _
  rw [dropped]
  exact toword_bytes _ tail (small _ (List.get_mem records ⟨i, inside⟩))

include structs single ascending in
theorem decodeType_decodes (records : List Nat) (data : List UInt8)
    (wire : FieldsWire schema payload table (-1) (schema type).f records data)
    (limit : (typeBytes records data).length < 2 ^ 31) (main : Option Nat) :
    ∃ ud, decodeType border (some struct) (schema type) (typeBytes records data)
        (newDecodeUd main) = .ok ((typeBytes records data).length, ud) ∧
      Decoded schema type table main ud := by
  have later : ∀ field ∈ (schema type).f, (-1 : Int) < field.tag := fun field _ => by omega
  obtain ⟨small, count⟩ := fieldsWire_records schema payload table (-1) (schema type).f records data
    wire ascending.tags ascending.small le_rfl (by norm_num) later
  have header : ((LittleEndian.bytes 2 records.length)).length = sizeofHeader :=
    LittleEndian.length_bytes 2 _
  have words : (records.flatMap (LittleEndian.bytes 2)).length = records.length * sizeofField := by
    simp [List.length_flatMap, sizeofField]
  have start : Read schema table [] (newDecodeUd main) :=
    ⟨by simp, by simp [newDecodeUd], by simp, by simp [newDecodeUd]⟩
  have part : data.length < 2 ^ 31 := by
    simp only [typeBytes, List.length_append] at limit
    omega
  obtain ⟨ud, decoded, read, tag⟩ := fieldsWire_decodes border schema struct payload structs single
    type ascending table (-1) (schema type).f records data wire later [] rfl part (newDecodeUd main)
    start
  refine ⟨ud, ?_, ⟨read.entries, read.agree⟩, ?_⟩
  · have long : ¬(typeBytes records data).length < sizeofHeader := by
      rw [typeBytes, List.length_append, header]
      omega
    have fn : toword (typeBytes records data) = records.length :=
      toword_bytes _ _ (by omega)
    have stream : (typeBytes records data).drop sizeofHeader =
        records.flatMap (LittleEndian.bytes 2) ++ data :=
      List.drop_left' header
    have room : ¬(records.flatMap (LittleEndian.bytes 2) ++ data).length <
        records.length * sizeofField := by
      rw [List.length_append, words]
      omega
    rw [decodeType, if_neg long]
    simp only [fn, stream, words_of_records records small data]
    rw [if_neg room, List.drop_left' words, decoded]
    rfl
  · intro field member one same present
    exact read.key field member one (tag.trans same) present

end type

theorem sprotoDecode_decodes (schema : Schema) (ascending : ∀ type, Ascending (schema type))
    (single : SingleMain schema) (levels : Nat) :
    DecodesStruct schema (sprotoDecode border schema levels) (StructWire schema levels) := by
  induction levels with
  | zero =>
    rintro type table _ main ⟨fields, rfl⟩
    refine ⟨newDecodeUd main, rfl, ⟨by simp [newDecodeUd], by simp [fields]⟩, by simp [fields]⟩
  | succ levels ih =>
    rintro type table _ main ⟨limit, records, data, rfl, wire⟩
    exact decodeType_decodes border schema _ (StructWire schema levels) ih single type
      (ascending type) table records data wire limit main

theorem lencodeLoop_wire (number : Scalar → List UInt8) (schema : Schema)
    (ascending : ∀ type, Ascending (schema type)) (type : Nat) (table : Entries)
    (fits : Fits schema type table) (turns sz : Nat) (bytes : List UInt8)
    (encoded : lencodeLoop number schema type table turns sz = .ok bytes) :
    StructWire schema encodeDeeplevel type table bytes := by
  induction turns generalizing sz with
  | zero => simp [lencodeLoop] at encoded
  | succ turns ih =>
    have yields := sprotoEncode_encodes number schema ascending encodeDeeplevel type table
      (reservedSlots - 1) true sz fits
    rw [lencodeLoop] at encoded
    generalize sprotoEncode number schema encodeDeeplevel type
      (newEncodeUd table (reservedSlots - 1) true) sz = result at encoded yields
    match result with
    | .ok (written, left) =>
      obtain ⟨-, rfl⟩ := Slots.within_ok encoded
      exact yields
    | .error .full =>
      simp only at encoded
      split_ifs at encoded
      exact ih _ encoded
    | .error (.error _) | .error .overflow | .error .stack | .error .turns => simp at encoded

theorem lencodeLoop_ends (number : Scalar → List UInt8) (schema : Schema)
    (ascending : ∀ type, Ascending (schema type)) (type : Nat) (table : Entries)
    (fits : Fits schema type table) (turns sz : Nat)
    (enough : encodeMaxsize < sz * 2 ^ turns) (last : sz ≤ encodeMaxsize) :
    lencodeLoop number schema type table turns sz ≠ .error .turns := by
  induction turns generalizing sz with
  | zero => omega
  | succ turns ih =>
    have yields := sprotoEncode_encodes number schema ascending encodeDeeplevel type table
      (reservedSlots - 1) true sz fits
    rw [lencodeLoop]
    generalize sprotoEncode number schema encodeDeeplevel type
      (newEncodeUd table (reservedSlots - 1) true) sz = result at yields
    match result with
    | .ok (written, left) =>
      simp only [Slots.within]
      split_ifs <;> simp
    | .error .full =>
      simp only
      split_ifs with large
      · simp
      · refine ih _ ?_ (by omega)
        rwa [Nat.mul_assoc, ← Nat.pow_succ']
    | .error (.error _) | .error .overflow | .error .stack => simp
    | .error .turns => exact absurd rfl yields

theorem lencode_ends (number : Scalar → List UInt8) (schema : Schema)
    (ascending : ∀ type, Ascending (schema type)) (type : Nat) (table : Entries)
    (fits : Fits schema type table) (sz : Nat) (positive : 0 < sz) (bound : sz ≤ encodeMaxsize) :
    lencode number schema type table sz ≠ .error .turns := by
  refine lencodeLoop_ends number schema ascending type table fits 25 sz ?_ bound
  rw [encodeMaxsize]
  omega

theorem ldecode_lencode (number : Scalar → List UInt8) (schema : Schema)
    (ascending : ∀ type, Ascending (schema type)) (single : SingleMain schema) (type : Nat)
    (table : Entries) (fits : Fits schema type table) (sz : Nat) (bytes : List UInt8)
    (encoded : lencode number schema type table sz = .ok bytes) :
    ∃ result, ldecode border schema type bytes =
        .ok (.table (border result) result, bytes.length) ∧
      Matches schema type table result := by
  have wire := lencodeLoop_wire number schema ascending type table fits 25 sz bytes encoded
  obtain ⟨ud, decoded, result⟩ := sprotoDecode_decodes border schema ascending single
    encodeDeeplevel type table bytes none wire
  refine ⟨ud.result, ?_, result.matched⟩
  rw [ldecode, decoded]

theorem ascending_importType (fields : List Field) (small : ∀ field ∈ fields, field.tag ≤ 0x7ffe)
    (tags : fields.Pairwise fun first second => first.tag < second.tag)
    (names : (fields.map (·.name)).Nodup) : Ascending (importType fields) :=
  ⟨rfl, small, tags, names⟩

def fieldName (c : Char) : List UInt8 := [UInt8.ofNat c.toNat]

def stringValue (c : Char) : LuaValue := .scalar (.string (fieldName c))

def mapField : Field :=
  { tag := 4, type := .struct, array := true, name := fieldName 'm', st := 1, key := some 0 }

def mainField (type : FieldType) (array : Bool) : Field :=
  { tag := 0, type := type, array := array, name := fieldName 'k', st := 0, key := none }

def numberField (array : Bool) (tag : Nat) (c : Char) : Field :=
  { tag := tag, type := .integer, array := array, name := fieldName c, st := 0, key := none }

def sampleSchema (type : Nat) : SprotoType :=
  importType (if type = 0 then [numberField false 1 'n', numberField true 2 'a', mapField]
    else [mainField .string false])

def sampleTable : Entries :=
  [(stringValue 'n', integerValue (-2)),
    (stringValue 'a', .table 2
      [(integerValue 1, integerValue 3), (integerValue 2, integerValue 0x10000000000)]),
    (stringValue 'm', .table 0 [(stringValue 'x', .table 0 [(stringValue 'k', stringValue 'x')])])]

theorem sampleSchema_ascending (type : Nat) : Ascending (sampleSchema type) := by
  unfold sampleSchema
  split_ifs
  · exact ascending_importType _ (by decide) (by decide) (by decide)
  · exact ascending_importType _ (by decide) (by decide) (by decide)

theorem sampleSchema_single : SingleMain sampleSchema := by
  intro type field member main inside keyed
  have cases : field = mapField ∨ field.key = none := by
    by_cases first : type = 0
    · have fields : field = numberField false 1 'n' ∨ field = numberField true 2 'a' ∨
          field = mapField := by simpa [sampleSchema, importType, first] using member
      rcases fields with rfl | rfl | rfl
      · exact .inr rfl
      · exact .inr rfl
      · exact .inl rfl
    · have other : field = mainField .string false := by
        simpa [sampleSchema, importType, first] using member
      exact .inr (other ▸ rfl)
  rcases cases with rfl | none
  · obtain rfl : main = mainField .string false := by
      simpa [sampleSchema, importType, mapField] using inside
    rfl
  · rw [none] at keyed
    contradiction

theorem sampleTable_fits : Fits sampleSchema 0 sampleTable := by
  intro field member
  have cases : field = numberField false 1 'n' ∨ field = numberField true 2 'a' ∨
      field = mapField := by simpa [sampleSchema, importType] using member
  rcases cases with rfl | rfl | rfl
  · exact .single _ _ rfl rfl (.integer _ (-2) rfl)
  · have first := sequence_rawseti [] [] (integerValue 3) sequence_nil (by simp [integerValue, nil])
      (by norm_num)
    have second := sequence_rawseti _ _ (integerValue 0x10000000000) first
      (by simp [integerValue, nil]) (by norm_num)
    refine .array _ 2 _ _ rfl (.sequence _ _ rfl second) ?_
    intro value inside
    have cases : value = integerValue 3 ∨ value = integerValue 0x10000000000 := by
      simpa using inside
    rcases cases with rfl | rfl
    · exact .integer _ _ rfl
    · exact .integer _ _ rfl
  · refine .array _ 0 [(stringValue 'x', .table 0 [(stringValue 'k', stringValue 'x')])] _ rfl
      (.keyed _ (mainField .string false) rfl rfl (by decide) (by simp) ?_ ?_) ?_
    · intro entry inside
      rw [List.mem_singleton.mp inside]
      exact ⟨0, _, rfl, rfl⟩
    · intro entry inside
      rw [List.mem_singleton.mp inside]
      simp [stringValue, nil]
    · intro value inside
      rw [List.mem_singleton.mp inside]
      refine .struct _ 0 _ rfl ?_
      intro inner member
      obtain rfl : inner = mainField .string false := by
        simpa [sampleSchema, importType, mapField] using member
      exact .single _ _ rfl rfl (.string _ _ rfl)

theorem sample_decoded :
    ∃ bytes result, lencode (fun _ => []) sampleSchema 0 sampleTable 2050 = .ok bytes ∧
      bytes.length = 58 ∧
      ldecode List.length sampleSchema 0 bytes = .ok (.table (List.length result) result, 58) ∧
      Matches sampleSchema 0 sampleTable result := by
  have encoded : lencode (fun _ => []) sampleSchema 0 sampleTable 2050 =
      .ok [5, 0, 1, 0, 0, 0, 0, 0, 1, 0, 0, 0, 4, 0, 0, 0, 254, 255, 255, 255, 17, 0, 0, 0, 8, 3,
        0, 0, 0, 0, 0, 0, 0, 0, 0, 0, 0, 0, 1, 0, 0, 13, 0, 0, 0, 9, 0, 0, 0, 1, 0, 0, 0, 1, 0, 0,
        0, 120] := by rfl
  obtain ⟨result, decoded, matched⟩ := ldecode_lencode List.length (fun _ => []) sampleSchema
    sampleSchema_ascending sampleSchema_single 0 sampleTable sampleTable_fits 2050 _ encoded
  exact ⟨_, result, encoded, rfl, decoded, matched⟩

def chainSchema (_ : Nat) : SprotoType :=
  importType [{ tag := 0, type := .struct, array := true, name := fieldName 'c', st := 0, key := none }]

def chainTable : Nat → Entries
  | 0 => []
  | n + 1 => [(stringValue 'c', .table 1 [(integerValue 1, .table 0 (chainTable n))])]

example : (lencode (fun _ => []) chainSchema 0 (chainTable 44) 2050).toOption.isSome ∧
    lencode (fun _ => []) chainSchema 0 (chainTable 45) 2050 = .error .stack := by
  decide +kernel

def arrayMainSchema (type : Nat) : SprotoType :=
  importType (if type = 0 then [mapField] else [mainField .integer true])

def arrayMainTable : Entries :=
  let main := LuaValue.table 1 [(integerValue 1, integerValue 7)]
  [(stringValue 'm', .table 0 [(main, .table 0 [(stringValue 'k', main)])])]

theorem arrayMainSchema_ascending (type : Nat) : Ascending (arrayMainSchema type) := by
  unfold arrayMainSchema
  split_ifs
  · exact ascending_importType _ (by decide) (by decide) (by decide)
  · exact ascending_importType _ (by decide) (by decide) (by decide)

theorem arrayMainTable_fits : Fits arrayMainSchema 0 arrayMainTable := by
  intro field member
  obtain rfl : field = mapField := by simpa [arrayMainSchema, importType] using member
  refine .array _ 0 [(.table 1 [(integerValue 1, integerValue 7)], .table 0
    [(stringValue 'k', .table 1 [(integerValue 1, integerValue 7)])])] _ rfl
    (.keyed _ (mainField .integer true) rfl rfl (by decide) (by simp) ?_ ?_) ?_
  · intro entry inside
    rw [List.mem_singleton.mp inside]
    exact ⟨0, _, rfl, rfl⟩
  · intro entry inside
    rw [List.mem_singleton.mp inside]
    simp [nil]
  · intro value inside
    rw [List.mem_singleton.mp inside]
    refine .struct _ 0 _ rfl ?_
    intro inner member
    obtain rfl : inner = mainField .integer true := by
      simpa [arrayMainSchema, importType, mapField] using member
    have sequence := sequence_rawseti [] [] (integerValue 7) sequence_nil
      (by simp [integerValue, nil]) (by norm_num)
    refine .array _ 1 _ _ rfl (.sequence _ _ rfl sequence) ?_
    intro value inside
    rw [List.mem_singleton.mp inside]
    exact .integer _ _ rfl

theorem array_main_undecodable :
    (∀ type, Ascending (arrayMainSchema type)) ∧ Fits arrayMainSchema 0 arrayMainTable ∧
      ∃ bytes, lencode (fun _ => []) arrayMainSchema 0 arrayMainTable 2050 = .ok bytes ∧
        ldecode List.length arrayMainSchema 0 bytes =
          .error (.error "Can't find main index (tag=0) in [m]") :=
  ⟨arrayMainSchema_ascending, arrayMainTable_fits,
    [2, 0, 7, 0, 0, 0, 17, 0, 0, 0, 13, 0, 0, 0, 1, 0, 0, 0, 5, 0, 0, 0, 4, 7, 0, 0, 0], rfl, rfl⟩

end Pskynet.Sproto
