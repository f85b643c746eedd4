import Pskynet.Bson.Read

set_option autoImplicit false

namespace Pskynet.Bson

open LittleEndian

variable {data : List UInt8}

-- The key, the type and the place of each value of a fixed size, in fields that start at `p`
def places : Nat → Fields → List (List UInt8 × UInt8 × Nat)
  | _, [] => []
  | p, (key, item) :: fields =>
      let later := places (p + (fieldBytes key item).length) fields
      if fieldSize item.type = 0 then later else (key, item.type, p + key.length + 2) :: later

def placeId (type : UInt8) (place : Nat) : Int64 := Int64.ofNat (type.toNat ||| place * 32)

def placeEntries (found : List (List UInt8 × UInt8 × Nat)) : Entries :=
  found.map fun (key, type, place) => (.string key, .integer (placeId type place))

def Indexable (fields : Fields) : Prop := ∀ found ∈ places 4 fields, found.2.2 < 2 ^ 26

instance (fields : Fields) : Decidable (Indexable fields) :=
  inferInstanceAs (Decidable (∀ found ∈ places 4 fields, found.2.2 < 2 ^ 26))

theorem fixed_leaf (item : Item) (fixed : fieldSize item.type ≠ 0) :
    ∃ type payload, item = .leaf type payload := by
  cases item with
  | leaf type payload => exact ⟨type, payload, rfl⟩
  | table array fields => cases array <;> exact absurd rfl fixed

theorem fixed_length {type : UInt8} {payload : List UInt8} {value : Value}
    (leaf : Leaf type payload value) (fixed : fieldSize type ≠ 0) :
    payload.length = fieldSize type := by
  cases leaf with
  | real | date | int32 | int64 => exact length_bytes _ _
  | boolean => rfl
  | objectid id size => exact size
  | timestamp inc ts => rw [List.length_append, length_bytes, length_bytes]; rfl
  | string | binary | regex | dbpointer | codews => exact absurd rfl fixed
  | special type known => rcases known with rfl | rfl | rfl <;> exact absurd rfl fixed
  | code type known => rcases known with rfl | rfl <;> exact absurd rfl fixed

theorem skipBytes_takes (more : Int) (v : Nat) (rest : List UInt8)
    (size : (rest.length : Int) = v + more) (small : v < 2 ^ 31) :
    Takes data (fun br => (skipBytes data br more).map fun br => ((), br)) (bytes 4 v ++ rest)
      () := by
  intro p n holds room fits
  obtain ⟨here, later⟩ := holds_append.mp holds
  rw [List.length_append, length_bytes] at room ⊢
  unfold skipBytes
  beta_reduce
  rw [readInt32_small v small p n here (by rw [length_bytes]; omega) fits, length_bytes]
  change ((int (v + more) >>= _).map _) = _
  rw [← size, int_eq (by omega) (by omega)]
  change (((readBytes _ _).map _).map _) = _
  rw [readBytes_eq (by omega) (by omega) (by omega)]
  change Except.ok ((), Reader.mk _ _) = _
  congr 3 <;> omega

theorem skipNothing_takes :
    Takes data (fun br => (Except.ok br : Except Fault Reader).map fun br => ((), br)) [] () :=
  Takes.pure ()

theorem skipRegex_takes (pattern options : List UInt8) (clean : 0 ∉ pattern ++ options) :
    Takes data (fun br => (skipValue data br bsonRegex).map fun br => ((), br))
      ((pattern ++ [0]) ++ (options ++ [0])) () := by
  rw [List.mem_append, not_or] at clean
  have second : Takes data (fun br => (readCstring data br).map fun r => ((), r.2))
      (options ++ [0]) () := (readCstring_takes options clean.2).map fun _ => rfl
  have both : Takes data (fun br => readCstring data br >>= fun r =>
      (readCstring data r.2).map fun r => ((), r.2)) ((pattern ++ [0]) ++ (options ++ [0])) () :=
    (readCstring_takes pattern clean.1).bind second
  refine both.congr fun br => ?_
  change ((readCstring data br >>= _).map _) = _
  cases readCstring data br with
  | error fault => rfl
  | ok first =>
    change (((readCstring data first.2).map _).map _) = (readCstring data first.2).map _
    cases readCstring data first.2 <;> rfl

theorem skipValue_leaf {type : UInt8} {payload : List UInt8} {value : Value}
    (leaf : Leaf type payload value) (varied : fieldSize type = 0) :
    Takes data (fun br => (skipValue data br type).map fun br => ((), br)) payload () := by
  refine .assuming fun small => ?_
  cases leaf with
  | real | date | int32 | int64 | boolean | objectid | timestamp => exact nomatch varied
  | string str =>
    rw [length_textBytes] at small
    exact skipBytes_takes 0 (str.length + 1) (str ++ [0]) (by simp) (by omega)
  | binary subtype str =>
    rw [List.length_append, length_bytes] at small
    exact skipBytes_takes 1 str.length (subtype :: str) (by simp)
      (by simp only [List.length_cons] at small; omega)
  | special type known =>
    rcases known with rfl | rfl | rfl <;> exact skipNothing_takes
  | regex pattern options clean => exact skipRegex_takes pattern options clean
  | dbpointer name id size =>
    rw [List.length_append, length_textBytes] at small
    rw [textBytes, List.append_assoc]
    refine skipBytes_takes 12 (name.length + 1) _ ?_ (by omega)
    simp only [List.length_append, List.length_singleton]
    omega
  | code type known str =>
    rw [length_textBytes] at small
    have skips : Takes data _ _ _ :=
      skipBytes_takes 0 (str.length + 1) (str ++ [0]) (by simp) (by omega)
    rcases known with rfl | rfl <;> exact skips
  | codews rest =>
    rw [List.length_append, length_bytes] at small
    exact skipBytes_takes (-4) (rest.length + 4) rest (by omega) (by omega)

theorem skipValue_item {border : Entries → Nat} {item : Item} {value : Value}
    (reads : Reads border item value) (varied : fieldSize item.type = 0) :
    Takes data (fun br => (skipValue data br item.type).map fun br => ((), br)) item.bytes () := by
  cases reads with
  | leaf leaf => exact skipValue_leaf leaf varied
  | table array fields pairs keys values =>
    refine .assuming fun small => ?_
    rw [Item.bytes, length_enclosed] at small
    have skips : Takes data _ _ _ := skipBytes_takes (-4) ((fieldsBytes fields).length + 5)
      (fieldsBytes fields ++ [0]) (by simp; omega) (by omega)
    cases array <;> exact skips

theorem indexField_varied {border : Entries → Nat} {key : List UInt8} {item : Item} {value : Value}
    (clean : 0 ∉ key) (reads : Reads border item value) (varied : fieldSize item.type = 0) :
    Takes data (indexField data) (fieldBytes key item) none := by
  have tail : Takes data (fun br => skipValue data br item.type >>= fun br =>
      if fieldSize item.type = 0 then .ok (none, br)
      else
        indexId item.type br.ptr >>= fun id =>
          (readBytes br (fieldSize item.type)).map fun r => (some (key, id), r.2))
      item.bytes none := by
    refine ((skipValue_item reads varied).map (f := fun r => (none, r.2)) fun _ => rfl).congr ?_
    intro br
    cases skipValue data br item.type with
    | error fault => rfl
    | ok br => exact if_pos varied
  exact (readByte_takes item.type).bind ((readCstring_takes key clean).bind tail)

theorem indexId_eq (type : UInt8) (place : Nat) :
    indexId type place =
      if place < 2 ^ 26 then .ok (placeId type place) else .error .overflow := by
  unfold indexId
  split_ifs with small
  · rw [int_eq (by omega) (by omega)]
    change Except.ok (Int64.ofNat (type.toNat ||| ((place : Int) * 32).toNat)) = _
    have same : ((place : Int) * 32).toNat = place * 32 := by omega
    rw [same]
    rfl
  · have large : CInt.arith ((place : Int) * 32) = none := CInt.arith_none (by omega)
    rw [int, large]
    rfl

theorem indexField_fixed (p : Nat) (n : Int) {key : List UInt8} {type : UInt8}
    {payload : List UInt8} (clean : 0 ∉ key) (size : payload.length = fieldSize type)
    (fixed : fieldSize type ≠ 0) (holds : Holds data p (fieldBytes key (.leaf type payload)))
    (room : (fieldBytes key (.leaf type payload)).length ≤ n) (small : n < 2 ^ 31) :
    indexField data ⟨p, n⟩ =
      (indexId type (p + key.length + 2 : Nat)).map fun id => (some (key, id),
        ⟨(p + (fieldBytes key (.leaf type payload)).length : Nat),
          n - (fieldBytes key (.leaf type payload)).length⟩) := by
  have length : (fieldBytes key (.leaf type payload)).length = key.length + 2 + payload.length := by
    simp [fieldBytes, Item.bytes]
    omega
  rw [length] at room ⊢
  obtain ⟨head, later⟩ := holds_append.mp holds
  have parts : [type] ++ (key ++ [0]) = type :: (key ++ [0]) := rfl
  obtain ⟨first, name⟩ := holds_append.mp (parts ▸ head)
  have named := readCstring_takes key clean (p + 1) (n - 1) name
    (by rw [List.length_append, List.length_singleton]; omega) (by omega)
  unfold indexField
  rw [readByte_takes type p n first (by rw [List.length_singleton]; omega) small]
  change (readCstring data ⟨(p + 1 : Nat), n - 1⟩ >>= _) = _
  rw [named, List.length_append, List.length_singleton]
  change (skipValue data _ type >>= _) = _
  unfold skipValue
  rw [if_pos fixed]
  change (if fieldSize type = 0 then _ else _) = _
  have place : ((p + 1 + (key.length + 1) : Nat) : Int) = (p + key.length + 2 : Nat) := by omega
  rw [if_neg fixed, place]
  cases indexId type (p + key.length + 2 : Nat) with
  | error fault => rfl
  | ok id =>
    change (readBytes _ _).map _ = _
    rw [readBytes_eq (by omega) (by omega) (by omega)]
    change Except.ok (_, Reader.mk _ _) = Except.ok (_, Reader.mk _ _)
    congr 3 <;> omega

section

variable (border : Entries → Nat)

def Formed (fields : Fields) : Prop :=
  ∀ field ∈ fields, 0 ∉ field.1 ∧ ∃ value, Reads border field.2 value

theorem makeindexLoop_reads (fields : Fields) (formed : Formed border fields) (p turns : Nat)
    (index : Entries) (holds : Holds data p (fieldsBytes fields))
    (small : (fieldsBytes fields).length < 2 ^ 31) (enough : (fieldsBytes fields).length < turns) :
    makeindexLoop data turns ⟨p, (fieldsBytes fields).length⟩ index =
      if ∀ found ∈ places p fields, found.2.2 < 2 ^ 26 then
        .ok ((placeEntries (places p fields)).foldl
          (fun entries pair => rawset entries pair.1 pair.2) index)
      else .error .overflow := by
  induction fields generalizing p turns index with
  | nil =>
    cases turns with
    | zero => omega
    | succ turns => simp [makeindexLoop, fieldsBytes, places, placeEntries]
  | cons field fields ih =>
    obtain ⟨key, item⟩ := field
    obtain ⟨clean, value, reads⟩ : 0 ∉ key ∧ ∃ value, Reads border item value :=
      formed (key, item) (by simp)
    have later := ih fun field inside => formed field (by simp [inside])
    have some_ : 0 < (fieldBytes key item).length := Nat.zero_lt_succ _
    rw [fieldsBytes_cons] at holds small enough ⊢
    obtain ⟨here, behind⟩ := holds_append.mp holds
    rw [List.length_append] at small enough ⊢
    have rest : ((((fieldBytes key item).length + (fieldsBytes fields).length : Nat) : Int) -
        (fieldBytes key item).length) = (fieldsBytes fields).length := by omega
    cases turns with
    | zero => omega
    | succ turns =>
      rw [makeindexLoop, if_neg (by simp only; omega)]
      by_cases varied : fieldSize item.type = 0
      · rw [indexField_varied clean reads varied p _ here (by omega) (by omega), rest, places,
          if_pos varied]
        exact later _ turns index behind (by omega) (by omega)
      · obtain ⟨type, payload, rfl⟩ := fixed_leaf item varied
        cases reads with
        | leaf leaf =>
          rw [indexField_fixed p _ clean (fixed_length leaf varied) varied here (by omega)
            (by omega), rest, indexId_eq, places, if_neg varied]
          simp only [List.forall_mem_cons, ite_and]
          split_ifs with low
          · exact (later _ turns _ behind (by omega) (by omega)).trans (if_pos ‹_›)
          · exact (later _ turns _ behind (by omega) (by omega)).trans (if_neg ‹_›)
          · rfl

theorem formed_of_reads {array : Bool} {fields : Fields} {value : Value}
    (reads : Reads border (.table array fields) value) : Formed border fields := by
  cases reads with
  | table array fields pairs keys values =>
    intro field inside
    obtain ⟨pair, -, clean, -⟩ := (forall₂_exists keys).1 field inside
    obtain ⟨value, -, reads⟩ := (forall₂_exists values).1 field.2 (List.mem_map_of_mem inside)
    exact ⟨clean, value, reads⟩

def indexOf (fields : Fields) : Entries := storeAll (placeEntries (places 4 fields))

theorem lmakeindex_reads (fields : Fields) (formed : Formed border fields)
    (small : (enclosed (fieldsBytes fields)).length < 2 ^ 31) (turns : Nat)
    (enough : (enclosed (fieldsBytes fields)).length ≤ turns) :
    lmakeindex (enclosed (fieldsBytes fields)) turns =
      if Indexable fields then .ok (indexOf fields) else .error .overflow := by
  rw [lmakeindex, getLength_enclosed _ small]
  rw [length_enclosed] at small enough ⊢
  change (int (((fieldsBytes fields).length + 5 : Nat) - 5) >>= _) = _
  have size : (((fieldsBytes fields).length + 5 : Nat) : Int) - 5 = (fieldsBytes fields).length := by
    omega
  rw [size, int_eq (by omega) (by omega)]
  have body := (holds_append.mp (holds_append.mp (holds_whole (enclosed (fieldsBytes fields)))).2).1
  rw [length_bytes] at body
  exact makeindexLoop_reads border fields formed 4 turns [] body (by omega) (by omega)

end

end Pskynet.Bson
