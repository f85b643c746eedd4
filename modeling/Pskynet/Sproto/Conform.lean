import Pskynet.Sproto.Encode

set_option autoImplicit false

namespace Pskynet.Sproto

open Lua

structure Sequence (entries : Entries) (values : List LuaValue) : Prop where
  plain : ∀ entry ∈ entries, ∃ key, entry.1 = .scalar key
  short : values.length < 2 ^ 63
  get : ∀ i (inside : i < values.length), rawgeti entries (i + 1) = values.get ⟨i, inside⟩
  present : ∀ value ∈ values, value ≠ nil
  only : ∀ key, rawget entries key ≠ nil →
    ∃ i < values.length, key = .integer (Int64.ofNat (i + 1))

-- The elements of an array in the order in which they are encoded. Under a main index each
-- element has its own value of that field as its key.
inductive Elements (schema : Schema) (field : Field) : Entries → List LuaValue → Prop
  | sequence (entries : Entries) (values : List LuaValue) (unkeyed : field.key = none)
      (sequence : Sequence entries values) : Elements schema field entries values
  | keyed (entries : Entries) (main : Field) (keyed : field.key = some main.tag)
      (struct : field.type = .struct) (inside : main ∈ (schema field.st).f)
      (distinct : entries.Pairwise fun first second =>
        ∀ key, first.1 = .scalar key → second.1 ≠ .scalar key)
      (own : ∀ entry ∈ entries, ∃ rawlen element, entry.2 = .table rawlen element ∧
        entry.1 = rawget element (.string main.name))
      (present : ∀ entry ∈ entries, entry.1 ≠ nil) :
      Elements schema field entries (entries.map Prod.snd)

inductive Shape where
  | field (field : Field)
  | item (field : Field)

inductive Conforms (schema : Schema) : Shape → LuaValue → Prop
  | absent (field : Field) : Conforms schema (.field field) nil
  | single (field : Field) (value : LuaValue) (one : field.array = false)
      (unkeyed : field.key = none) (item : Conforms schema (.item field) value) :
      Conforms schema (.field field) value
  | array (field : Field) (rawlen : Nat) (entries : Entries) (values : List LuaValue)
      (many : field.array = true) (elements : Elements schema field entries values)
      (items : ∀ value ∈ values, Conforms schema (.item field) value) :
      Conforms schema (.field field) (.table rawlen entries)
  | integer (field : Field) (value : Int64) (type : field.type = .integer) :
      Conforms schema (.item field) (.scalar (.integer value))
  | boolean (field : Field) (value : Bool) (type : field.type = .boolean) :
      Conforms schema (.item field) (.scalar (.boolean value))
  | string (field : Field) (value : List UInt8) (type : field.type = .string) :
      Conforms schema (.item field) (.scalar (.string value))
  | struct (field : Field) (rawlen : Nat) (entries : Entries) (type : field.type = .struct)
      (fields : ∀ inner ∈ (schema field.st).f,
        Conforms schema (.field inner) (rawget entries (.string inner.name))) :
      Conforms schema (.item field) (.table rawlen entries)

def Fits (schema : Schema) (type : Nat) (table : Entries) : Prop :=
  ∀ field ∈ (schema type).f, Conforms schema (.field field) (rawget table (.string field.name))

-- Equal values, with an empty array taken for an absent one. The entries of a map are the same
-- up to their order.
inductive Agrees (schema : Schema) : Shape → LuaValue → LuaValue → Prop
  | absent (field : Field) : Agrees schema (.field field) nil nil
  | empty (field : Field) (rawlen : Nat) (entries : Entries) (many : field.array = true)
      (elements : Elements schema field entries []) :
      Agrees schema (.field field) (.table rawlen entries) nil
  | single (field : Field) (value result : LuaValue) (one : field.array = false)
      (item : Agrees schema (.item field) value result) :
      Agrees schema (.field field) value result
  | array (field : Field) (rawlen border : Nat) (entries result : Entries)
      (values results : List LuaValue) (many : field.array = true) (unkeyed : field.key = none)
      (some : values ≠ []) (before : Sequence entries values) (after : Sequence result results)
      (size : values.length = results.length)
      (items : ∀ i (one : i < values.length) (other : i < results.length),
        Agrees schema (.item field) (values.get ⟨i, one⟩) (results.get ⟨i, other⟩)) :
      Agrees schema (.field field) (.table rawlen entries) (.table border result)
  | map (field main : Field) (rawlen border : Nat) (entries result order : Entries)
      (many : field.array = true) (keyed : field.key = some main.tag)
      (inside : main ∈ (schema field.st).f) (some : entries ≠ []) (same : result.Perm order)
      (size : entries.length = order.length)
      (keys : ∀ i (one : i < entries.length) (other : i < order.length),
        Agrees schema (.item main) (entries.get ⟨i, one⟩).1 (order.get ⟨i, other⟩).1)
      (items : ∀ i (one : i < entries.length) (other : i < order.length),
        Agrees schema (.item field) (entries.get ⟨i, one⟩).2 (order.get ⟨i, other⟩).2) :
      Agrees schema (.field field) (.table rawlen entries) (.table border result)
  | integer (field : Field) (value : Int64) :
      Agrees schema (.item field) (.scalar (.integer value)) (.scalar (.integer value))
  | boolean (field : Field) (value : Bool) :
      Agrees schema (.item field) (.scalar (.boolean value)) (.scalar (.boolean value))
  | string (field : Field) (value : List UInt8) :
      Agrees schema (.item field) (.scalar (.string value)) (.scalar (.string value))
  | struct (field : Field) (rawlen border : Nat) (entries result : Entries)
      (plain : ∀ entry ∈ result, ∃ inner ∈ (schema field.st).f,
        entry.1 = .scalar (.string inner.name))
      (fields : ∀ inner ∈ (schema field.st).f, Agrees schema (.field inner)
        (rawget entries (.string inner.name)) (rawget result (.string inner.name))) :
      Agrees schema (.item field) (.table rawlen entries) (.table border result)

structure Matches (schema : Schema) (type : Nat) (table result : Entries) : Prop where
  plain : ∀ entry ∈ result, ∃ field ∈ (schema type).f, entry.1 = .scalar (.string field.name)
  fields : ∀ field ∈ (schema type).f, Agrees schema (.field field)
    (rawget table (.string field.name)) (rawget result (.string field.name))

theorem index_injective (i j : Nat) (first : i < 2 ^ 64) (second : j < 2 ^ 64)
    (same : Int64.ofNat i = Int64.ofNat j) : i = j := by
  have bits := congrArg (fun v => v.toBitVec.toNat) same
  simp only [Int64.toBitVec_ofNat', BitVec.toNat_ofNat] at bits
  omega

theorem rawgeti_behind (entries : Entries) (values : List LuaValue)
    (sequence : Sequence entries values) : rawgeti entries (values.length + 1) = nil := by
  by_contra found
  obtain ⟨i, inside, same⟩ := sequence.only _ found
  have short := sequence.short
  have index := index_injective _ _ (by omega) (by omega) (Scalar.integer.inj same)
  omega

theorem mem_of_rawget (entries : Entries) (key : Scalar) (found : rawget entries key ≠ nil) :
    LuaValue.scalar key ∈ entries.map Prod.fst := by
  rcases rawget_cases entries key with ⟨missing, _⟩ | ⟨entry, inside, same, _⟩
  · exact absurd missing found
  · exact same ▸ List.mem_map_of_mem inside

theorem sequence_length (entries : Entries) (values : List LuaValue)
    (sequence : Sequence entries values) : values.length ≤ entries.length := by
  have short := sequence.short
  let keys := (List.range values.length).map fun i =>
    LuaValue.scalar (.integer (Int64.ofNat (i + 1)))
  have distinct : keys.Nodup := by
    refine List.Nodup.map_on ?_ List.nodup_range
    intro i first j second same
    rw [List.mem_range] at first second
    have index := index_injective _ _ (by omega) (by omega)
      (Scalar.integer.inj (LuaValue.scalar.inj same))
    omega
  have held : keys ⊆ entries.map Prod.fst := by
    intro key member
    obtain ⟨i, bound, rfl⟩ := List.mem_map.mp member
    have inside := List.mem_range.mp bound
    refine mem_of_rawget entries _ ?_
    have get := sequence.get i inside
    rw [rawgeti] at get
    rw [get]
    exact sequence.present _ (List.get_mem values _)
  have count := (distinct.subperm held).length_le
  simpa [keys] using count

theorem mem_store (entries : Entries) (key : Scalar) (value : LuaValue)
    (entry : LuaValue × LuaValue) (inside : entry ∈ store entries key value) :
    entry ∈ entries ∨ entry = (.scalar key, value) := by
  unfold store at inside
  simp only at inside
  split_ifs at inside
  · exact .inl (List.mem_of_mem_filter inside)
  · rcases List.mem_append.mp inside with old | new
    · exact .inl (List.mem_of_mem_filter old)
    · exact .inr (List.mem_singleton.mp new)

theorem store_fresh (entries : Entries) (key : Scalar) (value : LuaValue)
    (present : value.isNil = false) (fresh : ∀ entry ∈ entries, entry.1 ≠ .scalar key) :
    store entries key value = entries ++ [(.scalar key, value)] := by
  have kept : entries.filter (fun entry => !entry.1.isScalar key) = entries := by
    rw [List.filter_eq_self]
    intro entry inside
    rw [Bool.not_eq_true', Bool.eq_false_iff, ne_eq, isScalar_iff]
    exact fresh entry inside
  rw [store, kept, present]
  rfl

theorem sequence_nil : Sequence [] [] where
  plain := by simp
  short := by norm_num
  get := by simp
  present value inside := absurd inside List.not_mem_nil
  only := by
    intro key found
    exact absurd rfl found

theorem sequence_rawseti (entries : Entries) (values : List LuaValue) (value : LuaValue)
    (sequence : Sequence entries values) (present : value ≠ nil)
    (short : values.length + 1 < 2 ^ 63) :
    Sequence (rawseti entries (values.length + 1) value) (values ++ [value]) where
  plain := by
    intro entry inside
    rcases mem_store _ _ _ _ inside with old | rfl
    · exact sequence.plain entry old
    · exact ⟨_, rfl⟩
  short := by rwa [List.length_append, List.length_singleton]
  get := by
    intro i inside
    rw [rawgeti, rawseti, rawget_store]
    by_cases last : i = values.length
    · subst last
      rw [if_pos rfl]
      simp
    · have before : i < values.length := by
        rw [List.length_append, List.length_singleton] at inside
        omega
      have other : Scalar.integer (Int64.ofNat (i + 1)) ≠
          .integer (Int64.ofNat (values.length + 1)) := by
        intro same
        have index := index_injective _ _ (by omega) (by omega) (Scalar.integer.inj same)
        omega
      rw [if_neg other]
      have get := sequence.get i before
      rw [rawgeti] at get
      rw [get]
      simp [List.getElem_append_left before]
  present := by
    intro other inside
    rcases List.mem_append.mp inside with old | new
    · exact sequence.present other old
    · rwa [List.mem_singleton.mp new]
  only := by
    intro key found
    rw [rawseti, rawget_store] at found
    rw [List.length_append, List.length_singleton]
    split_ifs at found with same
    · exact ⟨values.length, by omega, same⟩
    · obtain ⟨i, inside, index⟩ := sequence.only key found
      exact ⟨i, by omega, index⟩

theorem elements_length (schema : Schema) (field : Field) (entries : Entries)
    (values : List LuaValue) (elements : Elements schema field entries values) :
    values.length ≤ entries.length := by
  cases elements with
  | sequence _ _ sequence => exact sequence_length entries values sequence
  | keyed => rw [List.length_map]

theorem conforms_item_present (schema : Schema) (field : Field) (value : LuaValue)
    (conforms : Conforms schema (.item field) value) : value.isNil = false := by
  cases conforms <;> rfl

end Pskynet.Sproto
