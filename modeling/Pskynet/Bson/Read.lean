import Pskynet.Bson.Decode
import Pskynet.Shared.Words

set_option autoImplicit false

namespace Pskynet.Bson

open LittleEndian Slots

variable {data : List UInt8} {α β : Type}

def Holds (data : List UInt8) (p : Nat) (bytes : List UInt8) : Prop := bytes <+: data.drop p

theorem holds_append {p : Nat} {xs ys : List UInt8} :
    Holds data p (xs ++ ys) ↔ Holds data p xs ∧ Holds data (p + xs.length) ys := by
  constructor
  · rintro ⟨rest, same⟩
    refine ⟨⟨ys ++ rest, by rw [← same, List.append_assoc]⟩, rest, ?_⟩
    rw [← List.drop_drop, ← same, List.append_assoc, List.drop_left]
  · rintro ⟨⟨rest, first⟩, later, second⟩
    refine ⟨later, ?_⟩
    rw [← List.drop_drop, ← first, List.drop_left] at second
    rw [← first, ← second, List.append_assoc]

theorem holds_whole (data : List UInt8) : Holds data 0 data := List.prefix_refl _

theorem Holds.length_le {p : Nat} {bytes : List UInt8} (holds : Holds data p bytes)
    (filled : bytes ≠ []) : p + bytes.length ≤ data.length := by
  have inside := List.IsPrefix.length_le holds
  have some_ := List.length_pos_iff.mpr filled
  rw [List.length_drop] at inside
  omega

theorem byteAt_holds {p : Nat} {byte : UInt8} (holds : Holds data p [byte]) :
    byteAt data p = .ok byte := by
  obtain ⟨rest, same⟩ := holds
  have found : data[p]? = some byte := by
    rw [← List.head?_drop, ← same]
    rfl
  rw [byteAt, if_neg (by omega), Int.toNat_natCast, found]

theorem bytesAt_holds {p : Nat} {bytes : List UInt8} (holds : Holds data p bytes) :
    bytesAt data p bytes.length = .ok bytes := by
  rw [bytesAt]
  split_ifs with empty inside
  · rw [List.length_eq_zero_iff.mp empty]
  · rw [Int.toNat_natCast]
    exact congrArg Except.ok (List.prefix_iff_eq_take.mp holds).symm
  · have room := holds.length_le (by simpa using empty)
    omega

-- The reader takes `bytes` as `value`, wherever they are.
def Takes (data : List UInt8) (read : Reader → Except Fault (α × Reader)) (bytes : List UInt8)
    (value : α) : Prop :=
  ∀ (p : Nat) (n : Int), Holds data p bytes → bytes.length ≤ n → n < 2 ^ 31 →
    read ⟨p, n⟩ = .ok (value, ⟨(p + bytes.length : Nat), n - bytes.length⟩)

theorem Takes.pure (value : α) : Takes data (fun br => .ok (value, br)) [] value := by
  intro p n _ _ _
  simp

theorem Takes.bind {first : Reader → Except Fault (α × Reader)}
    {next : α × Reader → Except Fault (β × Reader)} {xs ys : List UInt8} {a : α} {b : β}
    (one : Takes data first xs a) (two : Takes data (fun br => next (a, br)) ys b) :
    Takes data (fun br => first br >>= next) (xs ++ ys) b := by
  intro p n holds room small
  obtain ⟨here, later⟩ := holds_append.mp holds
  rw [List.length_append, Nat.cast_add] at room
  have done := two (p + xs.length) (n - xs.length) later (by omega) (by omega)
  beta_reduce
  rw [one p n here (by omega) small]
  change (fun br => next (a, br)) _ = _
  rw [done, List.length_append, ← Nat.add_assoc, Int.sub_sub, ← Nat.cast_add]

theorem Takes.map {read : Reader → Except Fault (α × Reader)} {f : α × Reader → β × Reader}
    {bytes : List UInt8} {a : α} {b : β} (takes : Takes data read bytes a)
    (same : ∀ br, f (a, br) = (b, br)) : Takes data (fun br => (read br).map f) bytes b := by
  intro p n holds room small
  beta_reduce
  rw [takes p n holds room small]
  exact congrArg Except.ok (same _)

-- The reader puts what it takes `bytes` for on the stack, if `need` slots are free.
def Pushes (data : List UInt8) (read : Nat → Reader → Except Fault (α × Reader))
    (bytes : List UInt8) (need : Nat) (value : α) : Prop :=
  ∀ (room p : Nat) (n : Int), Holds data p bytes → bytes.length ≤ n → n < 2 ^ 31 →
    read room ⟨p, n⟩ =
      within .stack room need (value, ⟨(p + bytes.length : Nat), n - bytes.length⟩)

theorem Takes.before {first : Reader → Except Fault (α × Reader)}
    {next : Nat → α × Reader → Except Fault (β × Reader)} {xs ys : List UInt8} {need : Nat} {a : α}
    {b : β} (one : Takes data first xs a)
    (two : Pushes data (fun room br => next room (a, br)) ys need b) :
    Pushes data (fun room br => first br >>= next room) (xs ++ ys) need b := by
  intro room p n holds enough small
  obtain ⟨here, later⟩ := holds_append.mp holds
  rw [List.length_append, Nat.cast_add] at enough
  have done := two room (p + xs.length) (n - xs.length) later (by omega) (by omega)
  beta_reduce
  rw [one p n here (by omega) small]
  change (fun room br => next room (a, br)) room _ = _
  rw [done, List.length_append, ← Nat.add_assoc, Int.sub_sub, ← Nat.cast_add]

theorem checkReader_ok (br : Reader) (n : Int) (room : n ≤ br.size) : checkReader br n = .ok () :=
  if_neg (by omega)

theorem readByte_takes (byte : UInt8) : Takes data (readByte data) [byte] byte := by
  intro p n holds room _
  have space : (1 : Int) ≤ n := by simpa using room
  rw [readByte, checkReader_ok ⟨p, n⟩ 1 space]
  change (byteAt data p).map _ = _
  rw [byteAt_holds holds]
  rfl

theorem readNumber_takes (width v : Nat) :
    Takes data (readNumber data width) (bytes width v) (v % 256 ^ width) := by
  intro p n holds room _
  have found := bytesAt_holds holds
  rw [length_bytes] at room found
  rw [readNumber, checkReader_ok ⟨p, n⟩ width room]
  change (bytesAt data p width).map _ = _
  rw [found, ← value_bytes, length_bytes]
  rfl

theorem readInt32_takes (v : Nat) :
    Takes data (readInt32 data) (bytes 4 v) (CInt.toInt (v % 256 ^ 4 : Nat)) :=
  (readNumber_takes 4 v).map fun _ => rfl

theorem readInt32_small (v : Nat) (small : v < 2 ^ 31) :
    Takes data (readInt32 data) (bytes 4 v) (v : Int) := by
  have takes : Takes data _ _ _ := readInt32_takes v
  rwa [Nat.mod_eq_of_lt (by omega), CInt.toInt_eq (by omega) (by omega)] at takes

theorem readInt64_takes (v : Int64) :
    Takes data (readInt64 data) (bytes 8 v.toUInt64.toNat) v := by
  refine (readNumber_takes 8 v.toUInt64.toNat).map fun br => ?_
  have small : v.toUInt64.toNat < 256 ^ 8 := v.toUInt64.toNat_lt
  rw [Nat.mod_eq_of_lt small]
  exact Prod.ext (Words.ofNat_toNat v) rfl

theorem readDouble_takes (d : UInt64) :
    Takes data (readDouble data) (bytes 8 d.toNat) d := by
  refine (readNumber_takes 8 d.toNat).map fun br => ?_
  have small : d.toNat < 256 ^ 8 := d.toNat_lt
  rw [Nat.mod_eq_of_lt small]
  exact Prod.ext UInt64.ofNat_toNat rfl

theorem int_eq {n : Int} (low : -2 ^ 31 ≤ n) (high : n < 2 ^ 31) : int n = .ok n := by
  rw [int, CInt.arith_eq low high]

theorem readBytes_eq {p n sz : Int} (positive : 0 ≤ sz) (room : sz ≤ n) (small : n < 2 ^ 31) :
    readBytes ⟨p, n⟩ sz = .ok (p, ⟨p + sz, n - sz⟩) := by
  rw [readBytes, checkReader_ok ⟨p, n⟩ sz room]
  change (int (n - sz)).map _ = _
  rw [int_eq (by omega) (by omega)]
  rfl

theorem readBytes_takes {get : Int × Reader → Except Fault (β × Reader)} (str : List UInt8) (b : β)
    (same : ∀ (p : Nat) br, Holds data p str → get (p, br) = .ok (b, br)) :
    Takes data (fun br => readBytes br str.length >>= get) str b := by
  intro p n holds room small
  beta_reduce
  rw [readBytes_eq (by omega) room small]
  exact same p _ holds

theorem addlstring_holds {p : Nat} {str : List UInt8} (held : Nat) (holds : Holds data p str) :
    addlstring data held p str.length = .ok str := by
  rw [addlstring, if_neg (by omega), Int.toNat_natCast]
  exact bytesAt_holds holds

theorem cstring_eq (text rest : List UInt8) (n : Int) (room : text.length < n)
    (clean : 0 ∉ text) : cstring n (text ++ 0 :: rest) = .ok text := by
  induction text generalizing n with
  | nil =>
    rw [List.nil_append, cstring, if_neg, if_pos rfl]
    simp at room
    omega
  | cons byte text ih =>
    rw [List.mem_cons, not_or] at clean
    rw [List.length_cons] at room
    rw [List.cons_append, cstring, if_neg (by omega), if_neg (Ne.symm clean.1),
      ih (n - 1) (by omega) clean.2]
    rfl

theorem readCstring_takes (text : List UInt8) (clean : 0 ∉ text) :
    Takes data (readCstring data) (text ++ [0]) text := by
  intro p n holds room _
  obtain ⟨rest, same⟩ := holds
  rw [List.append_assoc, List.singleton_append] at same
  rw [List.length_append, List.length_singleton] at room ⊢
  have inside : ¬((p : Int) < 0 ∧ n ≠ 0) := by omega
  rw [readCstring, if_neg inside, Int.toNat_natCast, ← same,
    cstring_eq text rest n (by omega) clean]
  rfl

inductive Leaf : UInt8 → List UInt8 → Value → Prop where
  | real (bits : UInt64) : Leaf bsonReal (bytes 8 bits.toNat) (.number bits)
  | boolean (byte : UInt8) : Leaf bsonBoolean [byte] (.boolean (byte ≠ 0))
  | string (str : List UInt8) : Leaf bsonString (textBytes str) (.string str)
  | binary (subtype : UInt8) (str : List UInt8) :
      Leaf bsonBinary (bytes 4 str.length ++ (subtype :: str))
        (.string (0 :: bsonBinary :: subtype :: str))
  | objectid (id : List UInt8) (size : id.length = 12) :
      Leaf bsonObjectid id (.string (0 :: bsonObjectid :: id))
  | date (date : Int64) :
      Leaf bsonDate (bytes 8 date.toUInt64.toNat)
        (.string (0 :: bsonDate :: bytes 4 (date / 1000).toInt32.toUInt32.toNat))
  | special (type : UInt8) (known : type = bsonMinkey ∨ type = bsonMaxkey ∨ type = bsonNull) :
      Leaf type [] (.string [0, type])
  | regex (pattern options : List UInt8) (clean : 0 ∉ pattern ++ options) :
      Leaf bsonRegex ((pattern ++ [0]) ++ (options ++ [0]))
        (.string (0 :: bsonRegex :: (pattern ++ [0] ++ options ++ [0])))
  | int32 (v : UInt32) : Leaf bsonInt32 (bytes 4 v.toNat) (.integer v.toInt32.toInt64)
  | timestamp (inc ts : UInt32) :
      Leaf bsonTimestamp (bytes 4 inc.toNat ++ bytes 4 ts.toNat)
        (.string (0 :: bsonTimestamp :: (bytes 4 inc.toNat ++ bytes 4 ts.toNat)))
  | int64 (v : Int64) : Leaf bsonInt64 (bytes 8 v.toUInt64.toNat) (.integer v)
  | dbpointer (name id : List UInt8) (size : id.length = 12) :
      Leaf bsonDbpointer (textBytes name ++ id) (.string (0 :: bsonDbpointer :: (textBytes name ++ id)))
  | code (type : UInt8) (known : type = bsonJscode ∨ type = bsonSymbol) (str : List UInt8) :
      Leaf type (textBytes str) (.string (0 :: type :: textBytes str))
  | codews (rest : List UInt8) :
      Leaf bsonCodews (bytes 4 (rest.length + 4) ++ rest)
        (.string (0 :: bsonCodews :: (bytes 4 (rest.length + 4) ++ rest)))

theorem Takes.congr {read read' : Reader → Except Fault (α × Reader)} {bytes : List UInt8} {a : α}
    (takes : Takes data read bytes a) (same : ∀ br, read' br = read br) :
    Takes data read' bytes a := by
  intro p n holds room small
  rw [same]
  exact takes p n holds room small

theorem Takes.assuming {read : Reader → Except Fault (α × Reader)} {bytes : List UInt8} {a : α}
    (takes : bytes.length < 2 ^ 31 → Takes data read bytes a) : Takes data read bytes a := by
  intro p n holds room small
  exact takes (by omega) p n holds room small

theorem toInt_toNat (v : UInt32) : CInt.toInt (v.toNat : Int) = v.toInt32.toInt :=
  (BitVec.toInt_eq_toNat_bmod v.toBitVec).symm

theorem length_textBytes (str : List UInt8) : (textBytes str).length = str.length + 5 := by
  rw [textBytes, List.length_append, List.length_append, length_bytes, List.length_singleton]
  omega

theorem readString_takes (str : List UInt8) :
    Takes data (readString data) (textBytes str) (.string str) := by
  refine .assuming fun small => ?_
  rw [length_textBytes] at small
  refine (readInt32_small (str.length + 1) (by omega)).bind ?_
  let get : Int × Reader → Except Fault (Value × Reader) := fun r =>
    (bytesAt data r.1 str.length).map fun bytes => (.string bytes, r.2)
  have takes : Takes data (fun br => readBytes br (str ++ [0]).length >>= get) (str ++ [0])
      (.string str) := by
    refine readBytes_takes (str ++ [0]) (Value.string str) ?_
    intro p br holds
    change (bytesAt data p str.length).map _ = _
    rw [bytesAt_holds (holds_append.mp holds).1]
    rfl
  refine takes.congr ?_
  intro br
  have positive : ¬(((str.length + 1 : Nat) : Int) ≤ 0) := by omega
  have same : (((str.length + 1 : Nat) : Int) - 1).toNat = str.length := by omega
  simp only [if_neg positive, same, List.length_append, List.length_singleton]
  rfl

theorem readBinary_takes (subtype : UInt8) (str : List UInt8) :
    Takes data (readBinary data) (bytes 4 str.length ++ (subtype :: str))
      (.string (0 :: bsonBinary :: subtype :: str)) := by
  refine .assuming fun small => ?_
  rw [List.length_append, length_bytes, List.length_cons] at small
  refine (readInt32_small str.length (by omega)).bind ?_
  refine Takes.bind (readByte_takes subtype) ?_
  refine readBytes_takes str (Value.string (0 :: bsonBinary :: subtype :: str)) ?_
  intro p br holds
  change (addlstring data 3 p str.length).map _ = _
  rw [addlstring_holds 3 holds]
  rfl

theorem readObjectid_takes (id : List UInt8) (size : id.length = 12) :
    Takes data (readObjectid data) id (.string (0 :: bsonObjectid :: id)) := by
  unfold readObjectid
  have twelve : (12 : Int) = id.length := by omega
  rw [twelve]
  refine readBytes_takes id _ ?_
  intro p br holds
  change ((addlstring data 2 p id.length).map _).map _ = _
  rw [addlstring_holds 2 holds]
  rfl

theorem readDate_takes (date : Int64) :
    Takes data (readDate data) (bytes 8 date.toUInt64.toNat)
      (.string (0 :: bsonDate :: bytes 4 (date / 1000).toInt32.toUInt32.toNat)) :=
  (readInt64_takes date).map fun _ => rfl

theorem readRegex_takes (pattern options : List UInt8) (clean : 0 ∉ pattern ++ options) :
    Takes data (readRegex data) ((pattern ++ [0]) ++ (options ++ [0]))
      (.string (0 :: bsonRegex :: (pattern ++ [0] ++ options ++ [0]))) := by
  rw [List.mem_append, not_or] at clean
  refine (readCstring_takes pattern clean.1).bind ?_
  exact (readCstring_takes options clean.2).map fun _ => rfl

theorem readTimestamp_takes (inc ts : UInt32) :
    Takes data (readTimestamp data) (bytes 4 inc.toNat ++ bytes 4 ts.toNat)
      (.string (0 :: bsonTimestamp :: (bytes 4 inc.toNat ++ bytes 4 ts.toNat))) := by
  refine (readNumber_takes 4 inc.toNat).bind ?_
  refine (readNumber_takes 4 ts.toNat).map fun br => ?_
  simp only [bytes_mod]

theorem readRaw_takes (type : UInt8) (skipped kept : Int) (length : Nat) (rest : List UInt8)
    (skips : length + skipped = rest.length) (keeps : length + kept = rest.length + 4)
    (low : -4 ≤ skipped) :
    Takes data (readRaw data type skipped kept) (bytes 4 length ++ rest)
      (.string (0 :: type :: (bytes 4 length ++ rest))) := by
  intro p n holds room small
  obtain ⟨here, later⟩ := holds_append.mp holds
  rw [List.length_append, length_bytes, Nat.cast_add] at room
  rw [readRaw, readInt32_small length (by omega) p n here (by rw [length_bytes]; omega) small,
    length_bytes]
  change (int (length + skipped) >>= fun n' => readBytes ⟨(p + 4 : Nat), n - 4⟩ n' >>= _) = _
  rw [skips, int_eq (by omega) (by omega)]
  change (readBytes _ (rest.length : Int) >>= _) = _
  rw [readBytes_eq (by omega) (by omega) (by omega)]
  change (int (length + kept) >>= _) = _
  rw [keeps, int_eq (by omega) (by omega)]
  change (makeObject data type p (rest.length + 4)).map _ = _
  have len : ((rest.length : Int) + 4) = (bytes 4 length ++ rest).length := by
    rw [List.length_append, length_bytes]
    omega
  rw [makeObject, len, addlstring_holds 2 holds]
  change Except.ok (_, Reader.mk _ _) = _
  rw [List.length_append, length_bytes, ← Nat.add_assoc, Nat.cast_add (p + 4), Int.sub_sub,
    Nat.cast_add 4]
  rfl

theorem leaf_takes (nested : Bool → Reader → Except Fault (Value × Reader)) {type : UInt8}
    {payload : List UInt8} {value : Value} (leaf : Leaf type payload value) :
    Takes data (fun t => unpackValue data nested t type) payload value := by
  cases leaf with
  | real bits => exact (readDouble_takes bits).map fun _ => rfl
  | boolean byte => exact (readByte_takes byte).map fun _ => rfl
  | string str => exact readString_takes str
  | binary subtype str => exact readBinary_takes subtype str
  | objectid id size => exact readObjectid_takes payload size
  | date date => exact readDate_takes date
  | special type known => rcases known with rfl | rfl | rfl <;> exact Takes.pure _
  | regex pattern options clean => exact readRegex_takes pattern options clean
  | int32 v =>
    refine (readInt32_takes v.toNat).map fun br => ?_
    have whole : v.toNat < 256 ^ 4 := v.toNat_lt
    rw [Nat.mod_eq_of_lt whole, toInt_toNat]
    exact congrArg (fun i => (Value.integer i, br)) (Int64.ofInt_int32ToInt _)
  | timestamp inc ts => exact readTimestamp_takes inc ts
  | int64 v => exact (readInt64_takes v).map fun _ => rfl
  | dbpointer name id size =>
    rw [textBytes, List.append_assoc]
    refine readRaw_takes bsonDbpointer 12 16 (name.length + 1) _ ?_ ?_ (by omega) <;>
      simp only [List.length_append, List.length_singleton] <;> omega
  | code type known str =>
    have raw : Takes data _ _ _ := readRaw_takes type 0 4 (str.length + 1) (str ++ [0]) (by simp)
      (by simp) (by omega)
    rcases known with rfl | rfl <;> exact raw
  | codews rest =>
    exact readRaw_takes bsonCodews (-4) 0 (rest.length + 4) rest (by omega) (by omega) (by omega)

theorem forall₂_exists {α β : Type} {R : α → β → Prop} {as : List α} {bs : List β}
    (related : List.Forall₂ R as bs) :
    (∀ a ∈ as, ∃ b ∈ bs, R a b) ∧ ∀ b ∈ bs, ∃ a ∈ as, R a b := by
  induction related with
  | nil => simp
  | cons head tail ih =>
    constructor
    · rintro a (_ | ⟨_, inside⟩)
      · exact ⟨_, by simp, head⟩
      · obtain ⟨b, found, related⟩ := ih.1 a inside
        exact ⟨b, by simp [found], related⟩
    · rintro b (_ | ⟨_, inside⟩)
      · exact ⟨_, by simp, head⟩
      · obtain ⟨a, found, related⟩ := ih.2 b inside
        exact ⟨a, by simp [found], related⟩

def storeAll (pairs : Entries) : Entries :=
  pairs.foldl (fun entries pair => rawset entries pair.1 pair.2) []

section

variable (border : Entries → Nat)

inductive Reads : Item → Value → Prop where
  | leaf {type : UInt8} {payload : List UInt8} {value : Value} (leaf : Leaf type payload value) :
      Reads (.leaf type payload) value
  | table (array : Bool) (fields : Fields) (pairs : Entries)
      (keys : List.Forall₂ (fun field pair => 0 ∉ field.1 ∧ fieldKey array field.1 = .ok pair.1)
        fields pairs)
      (values : List.Forall₂ Reads (fields.map (·.2)) (pairs.map (·.2))) :
      Reads (.table array fields) (.table (border (storeAll pairs)) (storeAll pairs))

theorem slots_short {type : UInt8} {payload : List UInt8} (few : payload.length ≤ 12) :
    (Item.leaf type payload).slots = 1 := by
  have length : objectLength type payload ≤ bufferSize := by
    unfold objectLength bufferSize
    split_ifs <;> omega
  exact if_neg fun long => absurd long.2 (not_lt.mpr length)

theorem slots_object {type : UInt8} {payload object : List UInt8}
    (same : object.length = objectLength type payload) :
    pushSlots type (.string object) = (Item.leaf type payload).slots := by
  rw [pushSlots, Item.slots, same]

theorem objectLength_of_ne {type : UInt8} (payload : List UInt8) (other : type ≠ bsonBinary) :
    objectLength type payload = payload.length + 2 := if_neg other

theorem pushSlots_leaf {type : UInt8} {payload : List UInt8} {value : Value}
    (leaf : Leaf type payload value) : pushSlots type value = (Item.leaf type payload).slots := by
  cases leaf with
  | real bits => exact (slots_short (by simp)).symm
  | boolean byte => exact (slots_short (by simp)).symm
  | int32 v => exact (slots_short (by simp)).symm
  | int64 v => exact (slots_short (by simp)).symm
  | string str =>
    rw [pushSlots, Item.slots, if_neg (by simp), if_neg (by simp)]
  | binary subtype str =>
    refine slots_object ?_
    rw [objectLength, if_pos rfl]
    simp
    omega
  | objectid id size => exact slots_object (objectLength_of_ne _ (by decide)).symm
  | date date =>
    rw [slots_short (by simp), pushSlots, if_neg]
    simp [bufferSize]
  | special type known => rcases known with rfl | rfl | rfl <;> rfl
  | regex pattern options clean =>
    refine slots_object ((objectLength_of_ne _ (by decide)).trans ?_).symm
    simp
  | timestamp inc ts => exact slots_object (objectLength_of_ne _ (by decide)).symm
  | dbpointer name id size => exact slots_object (objectLength_of_ne _ (by decide)).symm
  | code type known str =>
    have other : type ≠ bsonBinary := by rcases known with rfl | rfl <;> decide
    exact slots_object (objectLength_of_ne _ other).symm
  | codews rest => exact slots_object (objectLength_of_ne _ (by decide)).symm

section

variable (nested : Nat → Bool → Reader → Except Fault (Value × Reader))

theorem leaf_pushes {type : UInt8} {payload : List UInt8} {value : Value}
    (leaf : Leaf type payload value) :
    Pushes data (fun room t => pushValue data nested room t type) payload
      (Item.leaf type payload).slots value := by
  intro room p n holds enough small
  have takes : Takes data _ payload value := leaf_takes (nested room) leaf
  have taken := takes p n holds enough small
  beta_reduce at taken ⊢
  rw [pushValue, taken]
  change within Fault.stack room (pushSlots type value) _ = _
  rw [pushSlots_leaf leaf]

theorem unpackField_pushes (array : Bool) (text : List UInt8) (item : Item) (key : Key)
    (value : Value) (clean : 0 ∉ text) (same : fieldKey array text = .ok key)
    (pushes : Pushes data (fun room t => pushValue data nested room t item.type) item.bytes
      item.slots value) :
    Pushes data (fun room => unpackField data nested room array) (fieldBytes text item)
      (1 + item.slots) (key, value) := by
  have tail : Pushes data (fun room t => fieldKey array text >>= fun key =>
      claim Fault.stack room 1 >>= fun room =>
        (pushValue data nested room t item.type).map fun r => ((key, r.1), r.2))
      item.bytes (1 + item.slots) (key, value) := by
    rw [same]
    intro room p n holds enough small
    refine claim_bind ?_
    have done := pushes (room - 1) p n holds enough small
    beta_reduce at done
    rw [done, within_image]
  exact (readByte_takes item.type).before ((readCstring_takes text clean).before tail)

theorem unpackFields_pushes (array : Bool) (fields : Fields) (pairs entries : Entries)
    (room turns p : Nat)
    (keys : List.Forall₂ (fun field pair => 0 ∉ field.1 ∧ fieldKey array field.1 = .ok pair.1)
      fields pairs)
    (values : List.Forall₂ (fun item value =>
      Pushes data (fun room t => pushValue data nested room t item.type) item.bytes item.slots value)
      (fields.map (·.2)) (pairs.map (·.2)))
    (holds : Holds data p (fieldsBytes fields)) (small : (fieldsBytes fields).length < 2 ^ 31)
    (enough : (fieldsBytes fields).length < turns) :
    unpackFields data nested room array turns ⟨p, (fieldsBytes fields).length⟩ entries =
      within .stack room (fieldsSlots fields)
        (pairs.foldl (fun entries pair => rawset entries pair.1 pair.2) entries) := by
  induction keys generalizing entries turns p with
  | nil =>
    cases turns with
    | zero => omega
    | succ turns => exact (if_pos rfl).trans (within_of_le (Nat.zero_le room)).symm
  | @cons field pair fields pairs key keys ih =>
    obtain ⟨text, item⟩ := field
    rw [List.map_cons, List.map_cons, List.forall₂_cons] at values
    have pushes := unpackField_pushes nested array text item pair.1 pair.2 key.1 key.2 values.1
    have some_ : 0 < (fieldBytes text item).length := Nat.zero_lt_succ _
    rw [fieldsBytes_cons] at holds small enough ⊢
    obtain ⟨here, later⟩ := holds_append.mp holds
    rw [List.length_append] at small enough ⊢
    cases turns with
    | zero => omega
    | succ turns =>
      have rest : ((((fieldBytes text item).length + (fieldsBytes fields).length : Nat) : Int) -
          (fieldBytes text item).length) = (fieldsBytes fields).length := by omega
      have first := pushes room p ((fieldBytes text item).length + (fieldsBytes fields).length : Nat)
        here (by omega) (by omega)
      beta_reduce at first
      rw [unpackFields, if_neg (by simp only; omega), first, rest, fieldsSlots]
      exact within_bind (ih (rawset entries pair.1 pair.2) turns _ values.2 later (by omega)
        (by omega))

end

theorem length_enclosed (body : List UInt8) : (enclosed body).length = body.length + 5 := by
  rw [enclosed, List.length_append, List.length_append, length_bytes, List.length_singleton]
  omega

theorem length_field_le (fields : Fields) (field : List UInt8 × Item) (inside : field ∈ fields) :
    field.2.bytes.length ≤ (fieldsBytes fields).length := by
  induction fields with
  | nil => simp at inside
  | cons first fields ih =>
    rw [fieldsBytes_cons, List.length_append]
    rcases List.mem_cons.mp inside with rfl | later
    · rw [fieldBytes, List.length_append]
      omega
    · have part := ih later
      omega

theorem unpackDict_pushes_step (array : Bool) (fields : Fields) (pairs : Entries) (turns : Nat)
    (keys : List.Forall₂ (fun field pair => 0 ∉ field.1 ∧ fieldKey array field.1 = .ok pair.1)
      fields pairs)
    (values : List.Forall₂ (fun item value =>
      Pushes data (fun room t => pushValue data (unpackDict data border turns) room t item.type)
        item.bytes item.slots value) (fields.map (·.2)) (pairs.map (·.2)))
    (enough : (fieldsBytes fields).length < turns) :
    Pushes data (fun room => unpackDict data border (turns + 1) room array)
      (enclosed (fieldsBytes fields)) (1 + fieldsSlots fields)
      (.table (border (storeAll pairs)) (storeAll pairs)) := by
  intro free p n holds room small
  rw [length_enclosed] at room ⊢
  obtain ⟨length, holds⟩ := holds_append.mp holds
  obtain ⟨body, last⟩ := holds_append.mp holds
  rw [length_bytes] at body last
  beta_reduce
  rw [unpackDict, readInt32_small _ (by omega) p n length (by rw [length_bytes]; omega) small,
    length_bytes]
  change (int (((fieldsBytes fields).length + 5 : Nat) - 5) >>= _) = _
  rw [int_eq (by omega) (by omega)]
  have size : (((fieldsBytes fields).length + 5 : Nat) : Int) - 5 = (fieldsBytes fields).length := by
    omega
  rw [size]
  change (readBytes _ _ >>= _) = _
  rw [readBytes_eq (by omega) (by omega) (by omega)]
  change (readByte data ⟨(p + 4 : Nat) + ((fieldsBytes fields).length : Int), _⟩ >>= _) = _
  rw [← Nat.cast_add, readByte_takes 0 _ _ last (by simp only [List.length_singleton]; omega)
    (by omega)]
  refine claim_bind ?_
  rw [unpackFields_pushes _ array fields pairs [] (free - 1) turns (p + 4) keys values body
    (by omega) enough, within_image, List.length_singleton]
  congr 3
  · omega
  · omega

theorem unpackDict_pushes (array : Bool) (fields : Fields) (value : Value)
    (reads : Reads border (.table array fields) value) (turns : Nat)
    (enough : (Item.table array fields).bytes.length ≤ turns)
    (items : ∀ field ∈ fields, ∀ value turns, Reads border field.2 value →
      field.2.bytes.length ≤ turns →
      Pushes data (fun room t => pushValue data (unpackDict data border turns) room t field.2.type)
        field.2.bytes field.2.slots value) :
    Pushes data (fun room => unpackDict data border turns room array)
      (Item.table array fields).bytes (Item.table array fields).slots value := by
  cases reads with
  | table array fields pairs keys values =>
    rw [Item.bytes, length_enclosed] at enough
    rw [Item.bytes, Item.slots]
    cases turns with
    | zero => omega
    | succ turns =>
      refine unpackDict_pushes_step border array fields pairs turns keys ?_ (by omega)
      have each := (List.forall₂_and_left _ _).mpr ⟨fun item inside => inside, values⟩
      refine each.imp fun item value ⟨mapped, reads⟩ => ?_
      obtain ⟨field, inside, rfl⟩ := List.mem_map.mp mapped
      have part := length_field_le fields field inside
      exact items field inside value turns reads (by omega)

theorem pushValue_pushes (item : Item) (value : Value) (turns : Nat)
    (reads : Reads border item value) (enough : item.bytes.length ≤ turns) :
    Pushes data (fun room t => pushValue data (unpackDict data border turns) room t item.type)
      item.bytes item.slots value := by
  induction item using Item.induct generalizing value turns with
  | leaf type payload =>
    cases reads with
    | leaf leaf => exact leaf_pushes _ leaf
  | table array fields ih =>
    have whole : Pushes data _ _ _ value :=
      unpackDict_pushes border array fields value reads turns enough ih
    have one : pushSlots (Item.table array fields).type value = 1 := by
      cases reads
      rfl
    intro room p n holds space small
    have nested : ∀ br, unpackValue data (unpackDict data border turns room) br
        (Item.table array fields).type = unpackDict data border turns room array br := by
      cases array <;> exact fun _ => rfl
    have done := whole room p n holds space small
    beta_reduce at done ⊢
    rw [pushValue, nested, done]
    have less : 1 ≤ (Item.table array fields).slots := by
      rw [Item.slots]
      omega
    exact within_bind_le less (congrArg (fun need => within Fault.stack room need _) one)

theorem getLength_enclosed (body : List UInt8) (small : (enclosed body).length < 2 ^ 31) :
    getLength (enclosed body) = .ok (enclosed body).length := by
  have length := bytesAt_holds (holds_append.mp (holds_whole (enclosed body))).1
  rw [length_bytes] at length
  have four : LittleEndian.value (bytes 4 (body.length + 5)) = (enclosed body).length := by
    rw [length_enclosed] at small ⊢
    exact value_bytes_of_lt 4 _ (by omega)
  unfold getLength
  change (bytesAt (enclosed body) ((0 : Nat) : Int) 4).map _ = _
  rw [length, ← CInt.toInt_eq (n := (enclosed body).length) (by omega) (by omega), ← four]
  rfl

theorem ldecode_reads (fields : Fields) (value : Value)
    (reads : Reads border (.table false fields) value)
    (small : (enclosed (fieldsBytes fields)).length < 2 ^ 31) (room turns : Nat)
    (enough : (enclosed (fieldsBytes fields)).length ≤ turns) :
    ldecode (enclosed (fieldsBytes fields)) border room turns =
      within .stack room (Item.table false fields).slots value := by
  have done := unpackDict_pushes border false fields value reads turns enough
    (fun field _ value turns => pushValue_pushes border field.2 value turns) room 0
    (enclosed (fieldsBytes fields)).length (holds_whole _) le_rfl (by omega)
  rw [Item.bytes] at done
  beta_reduce at done
  rw [ldecode, getLength_enclosed _ small]
  change (unpackDict _ border turns room false ⟨((0 : Nat) : Int), _⟩).map _ = _
  rw [done, within_image]

end

-- There is a byte of the document for every slot that its values take.
theorem fieldsSlots_le_of (fields : Fields)
    (items : ∀ field ∈ fields, field.2.slots ≤ field.2.bytes.length + 1) :
    fieldsSlots fields ≤ (fieldsBytes fields).length := by
  induction fields with
  | nil => exact Nat.zero_le _
  | cons field fields ih =>
    have first := items field (by simp)
    have rest := ih fun other inside => items other (by simp [inside])
    rw [fieldsBytes_cons, fieldBytes, fieldsSlots]
    simp only [List.length_append, List.length_cons]
    omega

theorem slots_le (item : Item) : item.slots ≤ item.bytes.length + 1 := by
  induction item using Item.induct with
  | leaf type payload =>
    rw [Item.slots, Item.bytes]
    split_ifs with long
    · have length := long.2
      unfold objectLength bufferSize at length
      split_ifs at length <;> omega
    · omega
  | table array fields ih =>
    have all := fieldsSlots_le_of fields ih
    rw [Item.slots, Item.bytes, length_enclosed]
    omega

theorem table_slots_le (array : Bool) (fields : Fields) :
    (Item.table array fields).slots ≤ (enclosed (fieldsBytes fields)).length := by
  have all := fieldsSlots_le_of fields fun field _ => slots_le field.2
  rw [Item.slots, length_enclosed]
  omega

end Pskynet.Bson
