import Pskynet.Bson.Overwrite

set_option autoImplicit false

namespace Pskynet.Bson

open LittleEndian

-- The type of the last field of a fixed size with a name, and whether no other field with the name
-- follows: what `replace` of the name writes to.
def target (text : List UInt8) : Fields → Option (UInt8 × Bool)
  | [] => none
  | (key, item) :: fields =>
      match target text fields with
      | some found => some found
      | none =>
          if key = text ∧ fieldSize item.type ≠ 0 then
            some (item.type, decide (text ∉ fields.map Prod.fst))
          else none

structure At (fields : Fields) (text : List UInt8) (type : UInt8) (before : Fields)
    (payload : List UInt8) (after : Fields) : Prop where
  split : fields = before ++ (text, .leaf type payload) :: after
  fixed : fieldSize type ≠ 0
  last : ∀ field ∈ after, field.1 = text → fieldSize field.2.type = 0

theorem target_none {text : List UInt8} {fields : Fields} (none_ : target text fields = none) :
    ∀ field ∈ fields, field.1 = text → fieldSize field.2.type = 0 := by
  induction fields with
  | nil => simp
  | cons first fields ih =>
    obtain ⟨key, item⟩ := first
    rw [target] at none_
    cases later : target text fields with
    | some found =>
      rw [later] at none_
      cases none_
    | none =>
      rw [later] at none_
      simp only [ite_eq_right_iff, reduceCtorEq, imp_false, not_and, not_not] at none_
      intro field inside named
      rcases List.mem_cons.mp inside with rfl | rest
      · exact none_ named
      · exact ih later field rest named

theorem target_some {text : List UInt8} {fields : Fields} {type : UInt8} {last : Bool}
    (found : target text fields = some (type, last)) :
    ∃ before payload after, At fields text type before payload after ∧
      (last = true ↔ text ∉ after.map Prod.fst) := by
  induction fields with
  | nil => cases found
  | cons first fields ih =>
    obtain ⟨key, item⟩ := first
    rw [target] at found
    cases later : target text fields with
    | some other =>
      rw [later] at found
      cases found
      obtain ⟨before, payload, after, place, only⟩ := ih later
      refine ⟨(key, item) :: before, payload, after, ⟨?_, place.fixed, place.last⟩, only⟩
      rw [place.split, List.cons_append]
    | none =>
      rw [later] at found
      simp only [Option.ite_none_right_eq_some, Option.some.injEq, Prod.mk.injEq] at found
      obtain ⟨⟨rfl, fixed⟩, rfl, rfl⟩ := found
      obtain ⟨type, payload, rfl⟩ := fixed_leaf item fixed
      exact ⟨[], payload, fields, ⟨rfl, fixed, target_none later⟩, by simp⟩

section Places

theorem fieldsBytes_append (before after : Fields) :
    fieldsBytes (before ++ after) = fieldsBytes before ++ fieldsBytes after := by
  induction before with
  | nil => rfl
  | cons field before ih =>
    obtain ⟨key, item⟩ := field
    rw [List.cons_append, fieldsBytes_cons, fieldsBytes_cons, ih, List.append_assoc]

theorem places_append (p : Nat) (before after : Fields) :
    places p (before ++ after) = places p before ++ places (p + (fieldsBytes before).length) after := by
  induction before generalizing p with
  | nil => rfl
  | cons field before ih =>
    obtain ⟨key, item⟩ := field
    rw [List.cons_append, places, places, ih, fieldsBytes_cons, List.length_append, Nat.add_assoc]
    split_ifs <;> rfl

theorem mem_places (p : Nat) (fields : Fields) (found : List UInt8 × UInt8 × Nat)
    (inside : found ∈ places p fields) :
    ∃ field ∈ fields, field.1 = found.1 ∧ fieldSize field.2.type ≠ 0 := by
  induction fields generalizing p with
  | nil => cases inside
  | cons field fields ih =>
    obtain ⟨key, item⟩ := field
    rw [places] at inside
    split_ifs at inside with varied
    · obtain ⟨field, there, same⟩ := ih _ inside
      exact ⟨field, List.mem_cons_of_mem _ there, same⟩
    · rcases List.mem_cons.mp inside with rfl | later
      · exact ⟨(key, item), List.mem_cons_self, rfl, varied⟩
      · obtain ⟨field, there, same⟩ := ih _ later
        exact ⟨field, List.mem_cons_of_mem _ there, same⟩

theorem rawget_indexOf (fields : Fields) (key : Key) :
    rawget (indexOf fields) key = rawget (placeEntries (places 4 fields)).reverse key := by
  rw [indexOf, storeAll, rawget_foldl, List.append_nil]

theorem indexOf_none (fields : Fields) (key : Key)
    (none_ : ∀ text, key = .string text → ∀ field ∈ fields, field.1 = text →
      fieldSize field.2.type = 0) : rawget (indexOf fields) key = .nil := by
  rw [rawget_indexOf]
  apply rawget_of_notMem
  intro inside
  rw [Entries.keys, List.map_reverse, List.mem_reverse, placeEntries, List.map_map, List.mem_map]
    at inside
  obtain ⟨found, there, same⟩ := inside
  obtain ⟨field, member, named, fixed⟩ := mem_places 4 fields found there
  exact fixed (none_ found.1 same.symm field member named)

def placeOf (before : Fields) (text : List UInt8) : Nat :=
  4 + (fieldsBytes before).length + text.length + 2

variable {fields before after : Fields} {text payload : List UInt8} {type : UInt8}

theorem At.places (place : At fields text type before payload after) : ∃ p,
    places 4 fields = Bson.places 4 before ++ (text, type, placeOf before text) ::
      Bson.places p after := by
  refine ⟨4 + (fieldsBytes before).length + (fieldBytes text (.leaf type payload)).length, ?_⟩
  rw [place.split, places_append, Bson.places]
  exact congrArg _ (if_neg place.fixed)

theorem At.indexOf (place : At fields text type before payload after) :
    rawget (indexOf fields) (.string text) = .integer (placeId type (placeOf before text)) := by
  obtain ⟨p, split⟩ := place.places
  rw [rawget_indexOf, split, placeEntries, List.map_append, List.map_cons, List.reverse_append,
    List.reverse_cons, List.append_assoc, rawget_join, if_neg]
  · rw [List.singleton_append, rawget, if_pos rfl]
  · intro inside
    rw [Entries.keys, List.map_reverse, List.mem_reverse, List.map_map, List.mem_map] at inside
    obtain ⟨found, there, same⟩ := inside
    obtain ⟨field, member, named, fixed⟩ := mem_places p after found there
    exact fixed (place.last field member (named.trans (Key.string.inj same)))

theorem fieldSize_small (fixed : fieldSize type ≠ 0) : type.toNat < 32 := by
  unfold fieldSize at fixed
  split_ifs at fixed with eight one twelve four
  · rcases eight with rfl | rfl | rfl | rfl <;> decide
  · subst one
    decide
  · subst twelve
    decide
  · subst four
    decide
  · exact absurd rfl fixed

theorem placeId_parts (small : type.toNat < 32) (p : Nat) (low : p < 2 ^ 26) :
    (placeId type p).toInt32.toInt % 32 = type.toNat ∧
      (placeId type p).toInt32.toInt / 32 = p := by
  have joined : type.toNat ||| p * 32 = type.toNat + p * 32 := by
    have apart := Nat.two_pow_add_eq_or_of_lt (i := 5) small p
    rw [Nat.or_comm, Nat.mul_comm p, Nat.add_comm]
    exact apart.symm
  have value : (placeId type p).toInt32.toInt = (type.toNat + p * 32 : Nat) := by
    rw [placeId, joined, Int64.toInt_toInt32, Int64.toInt_ofNat_of_lt (by omega)]
    exact Int.bmod_eq_of_le (by omega) (by omega)
  rw [value]
  omega

theorem storeAt_middle (front middle back written : List UInt8)
    (same : written.length = middle.length) :
    storeAt (front ++ (middle ++ back)) front.length written = .ok (front ++ (written ++ back)) := by
  have behind : (front ++ (middle ++ back)).drop (front.length + written.length) = back := by
    rw [same, ← List.drop_drop, List.drop_left, List.drop_left]
  rw [storeAt, if_pos (by simp [same]), List.take_left, behind, List.append_assoc]

theorem At.store (place : At fields text type before payload after) (written : List UInt8)
    (same : written.length = payload.length) :
    storeAt (enclosed (fieldsBytes fields)) (placeOf before text) written =
      .ok (enclosed (fieldsBytes (before ++ (text, .leaf type written) :: after))) := by
  have body (value : List UInt8) : fieldsBytes (before ++ (text, .leaf type value) :: after) =
      fieldsBytes before ++ (type :: (text ++ [0])) ++ (value ++ fieldsBytes after) := by
    rw [fieldsBytes_append, fieldsBytes_cons, fieldBytes, Item.bytes]
    simp [Item.type]
  have document (value : List UInt8) (size : value.length = payload.length) :
      enclosed (fieldsBytes (before ++ (text, .leaf type value) :: after)) =
        bytes 4 ((fieldsBytes fields).length + 5) ++
          (fieldsBytes before ++ (type :: (text ++ [0]))) ++ (value ++ (fieldsBytes after ++ [0])) := by
    have same_length : (fieldsBytes (before ++ (text, .leaf type value) :: after)).length =
        (fieldsBytes fields).length := by
      rw [place.split, body, body]
      simp [size]
    rw [enclosed, same_length, body]
    simp
  have front : (bytes 4 ((fieldsBytes fields).length + 5) ++
      (fieldsBytes before ++ (type :: (text ++ [0])))).length = placeOf before text := by
    simp [length_bytes, placeOf]
    omega
  rw [document written same, ← front]
  have here := document payload rfl
  rw [← place.split] at here
  rw [here]
  exact storeAt_middle _ payload _ written same

end Places

section Rows

variable (border : Entries → Nat)

def Row (field : List UInt8 × Item) (pair : Key × Value) : Prop :=
  0 ∉ field.1 ∧ pair.1 = .string field.1 ∧ Reads border field.2 pair.2

theorem reads_rows {fields : Fields} {found : Value} (reads : Reads border (.table false fields) found) :
    ∃ pairs, List.Forall₂ (Row border) fields pairs ∧
      found = .table (border (storeAll pairs)) (storeAll pairs) := by
  cases reads with
  | table array fields pairs keys values =>
    refine ⟨pairs, ?_, rfl⟩
    induction keys with
    | nil => exact .nil
    | cons key keys ih =>
      rw [List.map_cons, List.map_cons, List.forall₂_cons] at values
      exact .cons ⟨key.1, (Except.ok.inj key.2).symm, values.1⟩ (ih values.2)

theorem rows_reads {fields : Fields} {pairs : Entries} (rows : List.Forall₂ (Row border) fields pairs) :
    Reads border (.table false fields) (.table (border (storeAll pairs)) (storeAll pairs)) := by
  refine .table false fields pairs ?_ ?_
  · refine rows.imp ?_
    rintro field pair ⟨clean, key, _⟩
    exact ⟨clean, congrArg Except.ok key.symm⟩
  · rw [List.forall₂_map_left_iff, List.forall₂_map_right_iff]
    exact rows.imp fun field pair row => row.2.2

theorem forall₂_middle {α β : Type} {R : α → β → Prop} {before after : List α} {x : α} {bs : List β}
    (related : List.Forall₂ R (before ++ x :: after) bs) :
    ∃ front y back, bs = front ++ y :: back ∧ List.Forall₂ R before front ∧ R x y ∧
      List.Forall₂ R after back := by
  induction before generalizing bs with
  | nil =>
    cases related with
    | cons head tail => exact ⟨[], _, _, rfl, .nil, head, tail⟩
  | cons a before ih =>
    cases related with
    | cons head tail =>
      obtain ⟨front, y, back, rfl, one, two, three⟩ := ih tail
      exact ⟨_ :: front, y, back, rfl, .cons head one, two, three⟩

theorem rows_keys {fields : Fields} {pairs : Entries} (rows : List.Forall₂ (Row border) fields pairs)
    (text : List UInt8) : .string text ∈ pairs.keys ↔ text ∈ fields.map Prod.fst := by
  induction rows with
  | nil => simp [Entries.keys]
  | cons row rows ih =>
    rw [Entries.keys, List.map_cons, List.map_cons, List.mem_cons, List.mem_cons, row.2.1,
      Key.string.injEq]
    exact or_congr_right ih

theorem rawget_middle (front back : Entries) (key other : Key) (value : Value) :
    rawget (storeAll (front ++ (key, value) :: back)) other =
      if other ∈ back.keys then rawget back.reverse other
      else if key = other then value else rawget front.reverse other := by
  have later : other ∈ Entries.keys back.reverse ↔ other ∈ back.keys := by
    rw [Entries.keys, List.map_reverse, List.mem_reverse]
    rfl
  rw [storeAll, rawget_foldl, List.append_nil, List.reverse_append, List.reverse_cons,
    List.append_assoc, rawget_join]
  simp only [later]
  rfl

variable {fields before after : Fields} {text payload written : List UInt8} {type : UInt8}
  {entries : Entries} {value : Value}

theorem At.size {found : Value} (place : At fields text type before payload after)
    (reads : Reads border (.table false fields) found) : payload.length = fieldSize type := by
  obtain ⟨pairs, rows, _⟩ := reads_rows border reads
  rw [place.split] at rows
  obtain ⟨front, pair, back, _, _, row, _⟩ := forall₂_middle rows
  cases row.2.2 with
  | leaf leaf => exact fixed_length leaf place.fixed

theorem At.reads (place : At fields text type before payload after)
    (reads : Reads border (.table false fields) (.table (border entries) entries))
    (leaf : Leaf type written value) :
    ∃ entries', Reads border (.table false (before ++ (text, .leaf type written) :: after))
        (.table (border entries') entries') ∧
      (∀ other, other ≠ .string text → rawget entries' other = rawget entries other) ∧
      rawget entries' (.string text) =
        if text ∈ after.map Prod.fst then rawget entries (.string text) else value := by
  obtain ⟨pairs, rows, same⟩ := reads_rows border reads
  obtain ⟨-, rfl⟩ := Value.table.inj same
  rw [place.split] at rows
  obtain ⟨front, ⟨key, old⟩, back, rfl, one, row, two⟩ := forall₂_middle rows
  obtain ⟨clean, rfl, -⟩ := row
  have key_mem := rows_keys border two text
  have rewritten : Row border (text, .leaf type written) (.string text, value) :=
    ⟨clean, rfl, .leaf leaf⟩
  refine ⟨_, rows_reads border (List.rel_append one (.cons rewritten two)), ?_, ?_⟩
  · intro other different
    rw [rawget_middle, rawget_middle, if_neg (Ne.symm different), if_neg (Ne.symm different)]
  · rw [rawget_middle, rawget_middle, if_pos rfl, if_pos rfl]
    simp only [key_mem]
    split_ifs <;> rfl

end Rows

section Calls

variable (number2str : UInt64 → List UInt8) (str2number : List UInt8 → Option UInt64)

def document (fields : Fields) : List UInt8 := enclosed (fieldsBytes fields)

inductive Effect (fields : Fields) (key : Key) (value : Value) : List UInt8 × Option Fault → Prop where
  | missing (message : String) (none_ : ∀ text, key = .string text → target text fields = none) :
      Effect fields key value (document fields, some (.error message))
  | refused (text : List UInt8) (type : UInt8) (last : Bool) (message : String)
      (named : key = .string text) (found : target text fields = some (type, last))
      (refused : Refused str2number type value) :
      Effect fields key value (document fields, some (.error message))
  | written (text : List UInt8) (type : UInt8) (last : Bool) (before : Fields)
      (payload : List UInt8) (after : Fields) (bytes : List UInt8) (back : Value)
      (named : key = .string text) (found : target text fields = some (type, last))
      (place : At fields text type before payload after)
      (only : last = true ↔ text ∉ after.map Prod.fst) (taken : ¬Refused str2number type value)
      (leaf : Leaf type bytes back) (exact_ : Exactly value back ↔ Fits type value) :
      Effect fields key value (document (before ++ (text, .leaf type bytes) :: after), none)

theorem indexed_missing {index : Entries} {key : Key} (none_ : rawget index key = .nil) :
    ∃ message, indexed number2str (some index) key = .error (.error message) := by
  unfold indexed
  dsimp only
  rw [none_]
  exact ⟨_, rfl⟩

theorem indexed_place {index : Entries} {key : Key} {type : UInt8} {p : Nat}
    (found : rawget index key = .integer (placeId type p)) (small : type.toNat < 32)
    (low : p < 2 ^ 26) : indexed number2str (some index) key = .ok (type, p) := by
  obtain ⟨one, two⟩ := placeId_parts small p low
  unfold indexed
  dsimp only
  rw [found]
  dsimp only
  rw [one, two, Int.toNat_natCast, Int.toNat_natCast, UInt8.ofNat_toNat]

theorem lreplace_effect (printed : ∀ bits, 0 ∉ number2str bits) {border : Entries → Nat}
    {fields : Fields} {found : Value} (reads : Reads border (.table false fields) found)
    (indexable : Indexable fields) (key : Key) (value : Value) :
    Effect str2number fields key value
      (lreplace number2str str2number (document fields) (some (indexOf fields)) key value) := by
  by_cases missing : ∀ text, key = .string text → target text fields = none
  · obtain ⟨message, same⟩ := indexed_missing number2str (indexOf_none fields key
      fun text named => target_none (missing text named))
    rw [lreplace, same]
    exact .missing message missing
  simp only [not_forall] at missing
  obtain ⟨text, named, there⟩ := missing
  obtain ⟨⟨type, last⟩, target_⟩ := Option.ne_none_iff_exists'.mp there
  obtain ⟨before, payload, after, place, only⟩ := target_some target_
  obtain ⟨p, split⟩ := place.places
  have low : placeOf before text < 2 ^ 26 :=
    indexable (text, type, placeOf before text) (by rw [split]; simp)
  have same := indexed_place number2str (named ▸ place.indexOf) (fieldSize_small place.fixed) low
  have old := place.size border reads
  rw [lreplace, same]
  dsimp only
  have overwritten := replaceBytes_overwritten number2str str2number printed type place.fixed value
  generalize replaceBytes number2str str2number type value = result at overwritten ⊢
  cases overwritten with
  | refused message refused => exact .refused text type last message named target_ refused
  | written bytes back taken leaf exact_ =>
    dsimp only
    rw [document, place.store bytes ((fixed_length leaf place.fixed).trans old.symm)]
    exact .written text type last before payload after bytes back named target_ place only taken leaf
      exact_

variable (border : Entries → Nat)

-- `decode`, with as many turns and as many slots as the document has bytes
def Decodes (data : List UInt8) (entries : Entries) : Prop :=
  ∀ room turns, data.length ≤ room → data.length ≤ turns →
    ldecode data border room turns = .ok (.table (border entries) entries)

def Replaces (data : List UInt8) (index : Entries) (key : Key) (value : Value) : Prop :=
  match lreplace number2str str2number data (some index) key value with
  | (after, some fault) => after = data ∧ ∃ message, fault = .error message
  | (after, none) =>
      ∃ entries entries', Decodes border data entries ∧ Decodes border after entries' ∧
        (∀ other, other ≠ key → rawget entries' other = rawget entries other) ∧
          Exactly value (rawget entries' key)

def Accurate (fields : Fields) (entries : Entries) (key : Key) (value : Value) : Prop :=
  ∀ text type last, key = .string text → target text fields = some (type, last) →
    Refused str2number type value ∨
      if last = true then Fits type value else Exactly value (rawget entries key)

theorem decodes_document {fields : Fields} {entries : Entries}
    (reads : Reads border (.table false fields) (.table (border entries) entries))
    (small : (document fields).length < 2 ^ 31) : Decodes border (document fields) entries := by
  intro room turns space enough
  rw [document, ldecode_reads border fields _ reads small room turns enough]
  exact Slots.within_of_le ((table_slots_le false fields).trans space)

theorem decodes_unique {data : List UInt8} {entries other : Entries}
    (one : Decodes border data entries) (two : Decodes border data other) : entries = other := by
  have same := (one _ _ le_rfl le_rfl).symm.trans (two _ _ le_rfl le_rfl)
  exact (Value.table.inj (Except.ok.inj same)).2

theorem At.same_places {fields before after : Fields} {text payload written : List UInt8}
    {type : UInt8} (place : At fields text type before payload after)
    (same : written.length = payload.length) :
    (document (before ++ (text, .leaf type written) :: after)).length = (document fields).length ∧
      Bson.places 4 (before ++ (text, .leaf type written) :: after) = Bson.places 4 fields := by
  have field : (fieldBytes text (.leaf type written)).length =
      (fieldBytes text (.leaf type payload)).length := by
    simp [fieldBytes, Item.bytes, same]
  constructor
  · rw [document, document, length_enclosed, length_enclosed, place.split, fieldsBytes_append,
      fieldsBytes_append, fieldsBytes_cons, fieldsBytes_cons]
    simp [field]
  · rw [place.split, places_append, places_append, Bson.places, Bson.places, field]
    rfl

theorem replaces_iff (printed : ∀ bits, 0 ∉ number2str bits) {fields : Fields} {entries : Entries}
    (reads : Reads border (.table false fields) (.table (border entries) entries))
    (small : (document fields).length < 2 ^ 31) (indexable : Indexable fields) (key : Key)
    (value : Value) :
    Replaces number2str str2number border (document fields) (indexOf fields) key value ↔
      Accurate str2number fields entries key value := by
  have effect := lreplace_effect number2str str2number printed reads indexable key value
  unfold Replaces
  generalize lreplace number2str str2number (document fields) (some (indexOf fields)) key value =
    result at effect ⊢
  cases effect with
  | missing message none_ =>
    refine iff_of_true ⟨rfl, message, rfl⟩ ?_
    intro text type last named found
    rw [none_ text named] at found
    cases found
  | refused text type last message named found refused =>
    refine iff_of_true ⟨rfl, message, rfl⟩ ?_
    rintro text' type' last' rfl found'
    cases named
    cases found.symm.trans found'
    exact .inl refused
  | written text type last before payload after bytes back named found place only taken leaf exact_ =>
    subst named
    have old := place.size border reads
    obtain ⟨length, _⟩ := place.same_places ((fixed_length leaf place.fixed).trans old.symm)
    obtain ⟨entries', reads', others, here⟩ := place.reads border reads leaf
    have before_ := decodes_document border reads small
    have after_ := decodes_document border reads' (length.trans_lt small)
    have accurate : Accurate str2number fields entries (.string text) value ↔
        Exactly value (rawget entries' (.string text)) := by
      have choice : Accurate str2number fields entries (.string text) value ↔
          if last = true then Fits type value else Exactly value (rawget entries (.string text)) := by
        constructor
        · intro all
          exact (all text type last rfl found).resolve_left taken
        · intro holds text' type' last' named found'
          cases named
          cases found.symm.trans found'
          exact .inr holds
      rw [choice, here]
      by_cases later : text ∈ after.map Prod.fst
      · rw [if_neg (by rw [only]; exact not_not.mpr later), if_pos later]
      · rw [if_pos (only.mpr later), if_neg later]
        exact exact_.symm
    rw [accurate]
    constructor
    · rintro ⟨one, two, decodes, decodes', _, exactly⟩
      rw [decodes_unique border after_ decodes']
      exact exactly
    · intro exactly
      exact ⟨entries, entries', before_, after_, others, exactly⟩

def replaceAll (index : Entries) : List UInt8 → List (Key × Value) → List UInt8
  | data, [] => data
  | data, (key, value) :: calls =>
      replaceAll index (lreplace number2str str2number data (some index) key value).1 calls

theorem replaceAll_reads (printed : ∀ bits, 0 ∉ number2str bits) (calls : List (Key × Value))
    {fields : Fields} {entries : Entries}
    (reads : Reads border (.table false fields) (.table (border entries) entries))
    (indexable : Indexable fields) :
    ∃ fields' entries', Reads border (.table false fields') (.table (border entries') entries') ∧
      replaceAll number2str str2number (indexOf fields) (document fields) calls = document fields' ∧
        (document fields').length = (document fields).length ∧ places 4 fields' = places 4 fields := by
  induction calls generalizing fields entries with
  | nil => exact ⟨fields, entries, reads, rfl, rfl, rfl⟩
  | cons call calls ih =>
    obtain ⟨key, value⟩ := call
    have effect := lreplace_effect number2str str2number printed reads indexable key value
    rw [replaceAll]
    generalize lreplace number2str str2number (document fields) (some (indexOf fields)) key value =
      result at effect ⊢
    cases effect with
    | missing message none_ => exact ih reads indexable
    | refused text type last message named found refused => exact ih reads indexable
    | written text type last before payload after bytes back named found place only taken leaf exact_ =>
      have old := place.size border reads
      obtain ⟨length, same⟩ := place.same_places ((fixed_length leaf place.fixed).trans old.symm)
      obtain ⟨entries', reads', -⟩ := place.reads border reads leaf
      have index : indexOf (before ++ (text, .leaf type bytes) :: after) = indexOf fields := by
        rw [indexOf, indexOf, same]
      have indexable' : Indexable (before ++ (text, .leaf type bytes) :: after) := by
        rw [Indexable, same]
        exact indexable
      have rest := ih reads' indexable'
      rw [index, length, same] at rest
      exact rest

theorem replace_exact_iff (printed : ∀ bits, 0 ∉ number2str bits) (fields : Fields) (found : Value)
    (reads : Reads border (.table false fields) found) (small : (document fields).length < 2 ^ 31) :
    ((∃ index, lmakeindex (document fields) (document fields).length = .ok index) ↔
      Indexable fields) ∧
    ∀ index, lmakeindex (document fields) (document fields).length = .ok index →
      ∀ calls : List (Key × Value), ∃ fields' entries',
        Reads border (.table false fields') (.table (border entries') entries') ∧
        replaceAll number2str str2number index (document fields) calls = document fields' ∧
        ∀ key value, Replaces number2str str2number border (document fields') index key value ↔
          Accurate str2number fields' entries' key value := by
  have made := lmakeindex_reads border fields (formed_of_reads border reads) small
    (document fields).length le_rfl
  change lmakeindex (document fields) _ = _ at made
  by_cases indexable : Indexable fields
  · rw [if_pos indexable] at made
    refine ⟨iff_of_true ⟨_, made⟩ indexable, ?_⟩
    intro index same calls
    obtain rfl := Except.ok.inj (made.symm.trans same)
    obtain ⟨pairs, _, rfl⟩ := reads_rows border reads
    obtain ⟨fields', entries', reads', after, length, places_⟩ :=
      replaceAll_reads number2str str2number border printed calls reads indexable
    have index : indexOf fields' = indexOf fields := by
      rw [indexOf, indexOf, places_]
    have indexable' : Indexable fields' := by
      rw [Indexable, places_]
      exact indexable
    refine ⟨fields', entries', reads', after, ?_⟩
    intro key value
    rw [← index]
    exact replaces_iff number2str str2number border printed reads' (length.trans_lt small) indexable'
      key value
  · rw [if_neg indexable] at made
    refine ⟨iff_of_false ?_ indexable, ?_⟩
    · rintro ⟨index, same⟩
      rw [made] at same
      cases same
    · intro index same
      rw [made] at same
      cases same

end Calls

def counted : Fields := [([97], .leaf bsonInt32 (bytes 4 (5 : UInt32).toNat))]

theorem counted_reads (border : Entries → Nat) : ∃ entries, Reads border (.table false counted)
    (.table (border entries) entries) := by
  have row : Row border ([97], .leaf bsonInt32 (bytes 4 (5 : UInt32).toNat)) (.string [97], .integer 5) :=
    ⟨by decide, rfl, .leaf (.int32 5)⟩
  exact ⟨_, rows_reads border (.cons row .nil)⟩

theorem counted_replaced :
    (∃ index, lmakeindex (document counted) (document counted).length = .ok index) ∧
      ((∃ index, lmakeindex (document counted) (document counted).length = .ok index) ↔
        Indexable counted) ∧
      ∀ index, lmakeindex (document counted) (document counted).length = .ok index →
        ∀ calls : List (Key × Value), ∃ fields' entries',
          Reads (fun _ => 0) (.table false fields') (.table 0 entries') ∧
          replaceAll (fun _ => [48]) (fun _ => none) index (document counted) calls =
            document fields' ∧
          ∀ key value, Replaces (fun _ => [48]) (fun _ => none) (fun _ => 0) (document fields') index
            key value ↔ Accurate (fun _ => none) fields' entries' key value := by
  obtain ⟨entries, reads⟩ := counted_reads fun _ => 0
  have holds := replace_exact_iff (fun _ => [48]) (fun _ => none) (fun _ => 0) (fun _ => by decide)
    counted _ reads (by decide)
  exact ⟨holds.1.mpr (by decide), holds⟩

theorem counted_truncated :
    lmakeindex (document counted) (document counted).length = .ok (indexOf counted) ∧
      ¬Replaces (fun _ => [48]) (fun _ => none) (fun _ => 0) (document counted) (indexOf counted)
        (.string [97]) (.integer (2 ^ 32 + 7)) := by
  obtain ⟨entries, reads⟩ := counted_reads fun _ => 0
  have made := lmakeindex_reads (fun _ => 0) counted (formed_of_reads _ reads) (by decide)
    (document counted).length le_rfl
  rw [if_pos (by decide)] at made
  refine ⟨made, ?_⟩
  rw [replaces_iff _ _ _ (fun _ => by decide) reads (by decide) (by decide)]
  intro accurate
  have here := accurate [97] bsonInt32 true rfl (by decide)
  rcases here with refused | fits
  · exact refused (2 ^ 32 + 7) rfl
  · obtain ⟨i, same, _, high⟩ := fits
    cases same
    revert high
    decide

end Pskynet.Bson
