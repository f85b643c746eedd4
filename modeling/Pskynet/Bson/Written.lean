import Pskynet.Bson.Decode

set_option autoImplicit false

namespace Pskynet.Bson

open LittleEndian

-- `cap` is a power of two that an `int` holds.
structure Bson.Sound (b : Bson) : Prop where
  room : b.size ≤ b.cap
  power : ∃ k ≤ 30, b.cap = 2 ^ k

theorem Bson.Sound.small {b : Bson} (sound : b.Sound) : b.cap ≤ 2 ^ 30 := by
  obtain ⟨k, bound, cap⟩ := sound.power
  rw [cap]
  exact Nat.pow_le_pow_right (by omega) bound

theorem bsonCreate_sound : bsonCreate.Sound := ⟨Nat.zero_le _, 6, by omega, rfl⟩

theorem doubleCap_ok (need : Int) (k : Nat) (bound : k ≤ 30) (cap : Nat)
    (done : doubleCap need (2 ^ k) = .ok cap) : need < cap ∧ ∃ k ≤ 30, cap = 2 ^ k := by
  induction rounds : 30 - k generalizing k with
  | zero =>
    rw [doubleCap, if_pos (Nat.pow_le_pow_right (by omega) (by omega))] at done
    exact nomatch done
  | succ rounds ih =>
    have positive := Nat.two_pow_pos k
    rw [doubleCap, if_neg, if_neg (by omega)] at done
    · split_ifs at done with more
      · rw [← Nat.pow_succ] at done
        exact ih (k + 1) (by omega) done (by omega)
      · obtain rfl := Except.ok.inj done
        exact ⟨not_le.mp more, k + 1, by omega, (Nat.pow_succ 2 k).symm⟩
    · have less : 2 ^ k < 2 ^ 30 := Nat.pow_lt_pow_right (by omega) (by omega)
      omega

theorem doubleCap_enough (need : Int) (k : Nat) (low : 2 ^ k ≤ need) (high : need < 2 ^ 30) :
    ∃ cap, doubleCap need (2 ^ k) = .ok cap := by
  have below : 2 ^ k < 2 ^ 30 := by
    have cast : ((2 ^ k : Nat) : Int) ≤ need := by exact_mod_cast low
    omega
  have bound : k < 30 := (Nat.pow_lt_pow_iff_right (by omega)).mp below
  induction rounds : 30 - k generalizing k with
  | zero => omega
  | succ rounds ih =>
    have positive := Nat.two_pow_pos k
    rw [doubleCap, if_neg (by omega), if_neg (by omega)]
    split_ifs with more
    · rw [← Nat.pow_succ] at more ⊢
      have less : 2 ^ (k + 1) < 2 ^ 30 := by omega
      refine ih (k + 1) (by exact_mod_cast more) less ?_ (by omega)
      exact (Nat.pow_lt_pow_iff_right (by omega)).mp less
    · exact ⟨_, rfl⟩

theorem bsonReserve_ok {b b' : Bson} {sz : Int} (sound : b.Sound) (done : bsonReserve b sz = .ok b') :
    b'.Sound ∧ b'.ptr = b.ptr ∧ b.cap ≤ b'.cap := by
  rw [bsonReserve] at done
  cases sum : CInt.arith (b.size + sz) with
  | none =>
    rw [sum] at done
    exact nomatch done
  | some need =>
    rw [sum] at done
    simp only at done
    split_ifs at done with fits
    · obtain rfl := Except.ok.inj done
      exact ⟨sound, rfl, le_rfl⟩
    · obtain ⟨cap, doubled, rfl⟩ := Outcome.map_ok.mp done
      obtain ⟨k, bound, same⟩ := sound.power
      rw [same] at doubled
      obtain ⟨over_, power⟩ := doubleCap_ok need k bound cap doubled
      have grown : b.cap ≤ cap := by omega
      exact ⟨⟨sound.room.trans grown, power⟩, rfl, grown⟩

theorem bsonReserve_enough {b : Bson} (sz : Int) (sound : b.Sound) (positive : 0 ≤ sz)
    (fits : b.size + sz < 2 ^ 30 ∨ b.size + sz ≤ b.cap) :
    ∃ b', bsonReserve b sz = .ok b' ∧ b.size + sz ≤ b'.cap := by
  have small := sound.small
  rw [bsonReserve, CInt.arith_eq (by omega) (by omega)]
  simp only
  split_ifs with inside
  · exact ⟨b, rfl, inside⟩
  · obtain ⟨k, bound, same⟩ := sound.power
    have low : ((2 ^ k : Nat) : Int) ≤ b.size + sz := by omega
    obtain ⟨cap, doubled⟩ := doubleCap_enough (b.size + sz) k (by exact_mod_cast low) (by omega)
    rw [same, doubled]
    exact ⟨_, rfl, (doubleCap_ok _ k bound cap doubled).1.le⟩

-- If there is a result, then it is `b` with `bytes` behind what it holds; there is one as long as
-- this is below the largest capacity.
structure Appends (b : Bson) (bytes : List UInt8) (result : Except Fault Bson) : Prop where
  right : ∀ b', result = .ok b' → b'.Sound ∧ b'.ptr = b.ptr ++ bytes
  enough : b.size + bytes.length < 2 ^ 30 → ∃ b', result = .ok b'

def Writes (act : Bson → Except Fault Bson) (bytes : List UInt8) : Prop :=
  ∀ b, b.Sound → Appends b bytes (act b)

theorem Appends.fits {b b' : Bson} {bytes : List UInt8} {result : Except Fault Bson}
    (appends : Appends b bytes result) (done : result = .ok b') :
    b.size + bytes.length ≤ 2 ^ 30 := by
  obtain ⟨sound, same⟩ := appends.right b' done
  have room := sound.room
  have small := sound.small
  rw [Bson.size, same, List.length_append] at room
  exact room.trans small

theorem Writes.nothing : Writes .ok [] := by
  intro b sound
  refine ⟨?_, fun _ => ⟨b, rfl⟩⟩
  rintro b' ⟨⟩
  exact ⟨sound, (List.append_nil _).symm⟩

theorem Appends.bind {b : Bson} {result : Except Fault Bson} {second : Bson → Except Fault Bson}
    {xs ys : List UInt8} (first : Appends b xs result) (secondWrites : Writes second ys) :
    Appends b (xs ++ ys) (result >>= second) := by
  constructor
  · intro last done
    obtain ⟨middle, done', done⟩ := Outcome.bind_ok.mp done
    obtain ⟨sound, same⟩ := first.right middle done'
    obtain ⟨sound', same'⟩ := (secondWrites middle sound).right last done
    exact ⟨sound', by rw [same', same, List.append_assoc]⟩
  · intro room
    rw [List.length_append] at room
    obtain ⟨middle, done⟩ := first.enough (by omega)
    obtain ⟨sound, same⟩ := first.right middle done
    obtain ⟨last, done'⟩ := (secondWrites middle sound).enough (by
      rw [Bson.size, same, List.length_append]
      exact (Nat.add_assoc _ _ _).trans_lt room)
    rw [done]
    exact ⟨last, done'⟩

theorem Writes.bind {first second : Bson → Except Fault Bson} {xs ys : List UInt8}
    (firstWrites : Writes first xs) (secondWrites : Writes second ys) :
    Writes (fun b => first b >>= second) (xs ++ ys) :=
  fun b sound => (firstWrites b sound).bind secondWrites

theorem store_ok {b b' : Bson} {bytes : List UInt8} (sound : b.Sound)
    (done : b.store bytes = .ok b') : b'.Sound ∧ b'.ptr = b.ptr ++ bytes := by
  rw [Bson.store] at done
  split_ifs at done with fits
  obtain rfl := Except.ok.inj done
  refine ⟨⟨?_, sound.power⟩, rfl⟩
  rw [Bson.size, List.length_append]
  exact fits

theorem store_writes (sz : Int) (bytes : List UInt8) (exact_ : bytes.length < 2 ^ 30 → sz = bytes.length) :
    Writes (fun b => bsonReserve b sz >>= fun b => b.store bytes) bytes := by
  intro b sound
  constructor
  · intro last done
    obtain ⟨reserved, done', done⟩ := Outcome.bind_ok.mp done
    obtain ⟨sound', same, -⟩ := bsonReserve_ok sound done'
    rw [← same]
    exact store_ok sound' done
  · intro room
    have size := exact_ (by omega)
    obtain ⟨reserved, done, fits⟩ := bsonReserve_enough sz sound (by omega) (.inl (by omega))
    obtain ⟨-, same, -⟩ := bsonReserve_ok sound done
    refine ⟨{ reserved with ptr := reserved.ptr ++ bytes }, ?_⟩
    change (bsonReserve b sz >>= fun b => b.store bytes) = _
    rw [done]
    refine if_pos ?_
    rw [Bson.size, same]
    rw [Bson.size] at fits
    omega

theorem writeByte_writes (v : UInt8) : Writes (fun b => writeByte b v) [v] :=
  store_writes 1 [v] fun _ => rfl

theorem writeInt32_writes (v : UInt32) : Writes (fun b => writeInt32 b v) (bytes 4 v.toNat) :=
  store_writes 4 _ fun _ => rfl

theorem writeInt64_writes (v : Int64) :
    Writes (fun b => writeInt64 b v) (bytes 8 v.toUInt64.toNat) :=
  store_writes 8 _ fun _ => rfl

theorem writeDouble_writes (d : UInt64) : Writes (fun b => writeDouble b d) (bytes 8 d.toNat) :=
  store_writes 8 _ fun _ => rfl

theorem writeString_writes (key : List UInt8) : Writes (fun b => writeString b key) (key ++ [0]) := by
  refine store_writes _ (key ++ [0]) ?_
  intro small
  rw [List.length_append, List.length_singleton] at small ⊢
  exact CInt.toInt_eq (by omega) (by omega)

theorem appendBytes_writes (str : List UInt8) : Writes (fun b => appendBytes b str) str := by
  refine store_writes _ str ?_
  intro small
  exact CInt.toInt_eq (by omega) (by omega)

theorem appendKey_writes (type : UInt8) (key : List UInt8) :
    Writes (fun b => appendKey b type key) (type :: (key ++ [0])) :=
  (writeByte_writes type).bind (writeString_writes key)

theorem bytes_ofNat (n : Nat) : bytes 4 (UInt32.ofNat n).toNat = bytes 4 n := by
  rw [UInt32.toNat_ofNat']
  exact bytes_mod 4 n

theorem length_writes (act : Bson → Except Fault Bson) (length : Nat → Nat → UInt32)
    (body : List UInt8) (v : UInt32) (writes : Writes act body)
    (count : ∀ off, length (off + (4 + body.length)) off = v) :
    Writes (fun b => reserveLength b >>= fun (b, off) =>
      (act b).map fun b => writeLength b (length b.size off) off) (bytes 4 v.toNat ++ body) := by
  intro b sound
  have appended : Appends b ([0, 0, 0, 0] ++ body)
      ((bsonReserve b 4 >>= fun b => b.store [0, 0, 0, 0]) >>= act) :=
    ((store_writes 4 [0, 0, 0, 0] fun _ => rfl).bind writes) b sound
  have same : (reserveLength b >>= fun (b, off) =>
      (act b).map fun b => writeLength b (length b.size off) off) =
      ((bsonReserve b 4 >>= fun b => b.store [0, 0, 0, 0]) >>= act).map
        fun b' => writeLength b' (length b'.size b.size) b.size := by
    rw [reserveLength]
    cases bsonReserve b 4 with
    | error fault => rfl
    | ok reserved =>
      change ((reserved.store [0, 0, 0, 0]).map (fun b' => (b', b.size)) >>= _) = _
      change _ = (reserved.store [0, 0, 0, 0] >>= act).map _
      cases reserved.store [0, 0, 0, 0] <;> rfl
  beta_reduce
  rw [same]
  constructor
  · intro last ran
    obtain ⟨written, done, rfl⟩ := Outcome.map_ok.mp ran
    obtain ⟨sound', ptr⟩ := appended.right written done
    have size : written.size = b.size + (4 + body.length) := by
      rw [Bson.size, ptr, List.length_append, List.length_append]
      rfl
    have result : (writeLength written (length written.size b.size) b.size).ptr =
        b.ptr ++ (bytes 4 v.toNat ++ body) := by
      rw [writeLength, size, count]
      simp only [ptr, Bson.size]
      rw [List.take_left, List.drop_append]
      simp
    refine ⟨⟨?_, sound'.power⟩, result⟩
    have room := sound'.room
    rw [size] at room
    rw [Bson.size, result]
    simpa [writeLength, Bson.size] using room
  · intro room
    have count : (bytes 4 v.toNat ++ body).length = ([0, 0, 0, 0] ++ body).length := by
      rw [List.length_append, List.length_append, length_bytes]
      rfl
    rw [count] at room
    obtain ⟨written, done⟩ := appended.enough room
    rw [done]
    exact ⟨_, rfl⟩

theorem packDict_writes (pack : Bson → Except Fault Bson) (body : List UInt8)
    (writes : Writes pack body) : Writes (fun b => packDict pack b) (enclosed body) := by
  have whole := length_writes (fun b => pack b >>= fun b => writeByte b 0)
    (fun size off => UInt32.ofNat (size - off)) (body ++ [0]) (UInt32.ofNat (body.length + 5))
    (writes.bind (writeByte_writes 0)) (by
      intro off
      rw [List.length_append, List.length_singleton]
      congr 1
      omega)
  rw [bytes_ofNat, ← enclosed] at whole
  exact whole

theorem appendText_writes (key str : List UInt8) :
    Writes (fun b => appendText b key str) (bsonString :: (key ++ [0]) ++ textBytes str) := by
  have text := length_writes (fun b => writeString b str) (fun _ _ => UInt32.ofNat (str.length + 1))
    (str ++ [0]) _ (writeString_writes str) fun _ => rfl
  rw [bytes_ofNat, ← textBytes] at text
  exact (appendKey_writes bsonString key).bind text

theorem writeBinary_writes (str : List UInt8) :
    Writes (fun b => writeBinary b str)
      (bytes 4 (UInt32.ofNat str.length - 1).toNat ++ str) :=
  length_writes (fun b => appendBytes b str) (fun _ _ => UInt32.ofNat str.length - 1) str _
    (appendBytes_writes str) fun _ => rfl

theorem integer_writes (key : List UInt8) (i : Int64) :
    Writes (fun b => appendInteger b key i) (fieldBytes key (integerItem i)) := by
  unfold appendInteger integerItem
  split_ifs
  · exact (appendKey_writes bsonInt32 key).bind (writeInt32_writes _)
  · exact (appendKey_writes bsonInt64 key).bind (writeInt64_writes i)

def Fails {α : Type} (result : Except Fault α) : Prop := ∃ fault, result = .error fault

theorem Fails.bind {α β : Type} {result : Except Fault α} {next : α → Except Fault β}
    (fails : ∀ value, Fails (next value)) : Fails (result >>= next) := by
  cases result with
  | error fault => exact ⟨fault, rfl⟩
  | ok value => exact fails value

def WritesOrFails (act : Bson → Except Fault Bson) (bytes : Option (List UInt8)) : Prop :=
  match bytes with
  | some bytes => Writes act bytes
  | none => ∀ b, Fails (act b)

theorem WritesOrFails.bind {first second : Bson → Except Fault Bson} {xs ys : Option (List UInt8)}
    (one : WritesOrFails first xs) (two : WritesOrFails second ys) :
    WritesOrFails (fun b => first b >>= second) (xs.bind fun xs => ys.map (xs ++ ·)) := by
  cases xs with
  | none =>
    intro b
    obtain ⟨fault, failed⟩ := one b
    refine ⟨fault, ?_⟩
    beta_reduce
    rw [failed]
    rfl
  | some xs =>
    cases ys with
    | none => exact fun b => .bind fun b => two b
    | some ys => exact Writes.bind one two

theorem packDict_writesOrFails (pack : Bson → Except Fault Bson) (body : Option (List UInt8))
    (writes : WritesOrFails pack body) :
    WritesOrFails (fun b => packDict pack b) (body.map enclosed) := by
  cases body with
  | some body => exact packDict_writes pack body writes
  | none =>
    intro b
    refine .bind ?_
    rintro ⟨b, length⟩
    obtain ⟨fault, failed⟩ := writes b
    refine ⟨fault, ?_⟩
    change (pack b >>= _).map _ = _
    rw [failed]
    rfl

theorem appendSubtype_writes (subt : UInt8) (str : List UInt8) :
    WritesOrFails (fun b => appendSubtype b subt str) (subtypeBytes subt str) := by
  unfold appendSubtype subtypeBytes
  split_ifs with binary wrongId raw date wrongDate timestamp wrongTimestamp regex special
  · exact writeBinary_writes str
  · exact fun _ => ⟨_, rfl⟩
  · exact appendBytes_writes str
  · exact fun _ => ⟨_, rfl⟩
  · exact writeInt64_writes _
  · exact fun _ => ⟨_, rfl⟩
  · exact (writeInt32_writes _).bind (writeInt32_writes _)
  · cases splitLast str.dropLast with
    | none => exact fun _ => ⟨_, rfl⟩
    | some parts => exact (writeString_writes parts.1).bind (writeString_writes parts.2)
  · exact Writes.nothing
  · exact fun _ => ⟨_, rfl⟩

theorem appendString_writes (key str : List UInt8) :
    WritesOrFails (fun b => appendString b key str) ((stringItem str).map (fieldBytes key)) := by
  rcases str with _ | ⟨byte, _ | ⟨subt, rest⟩⟩
  · exact appendText_writes key []
  · simp only [appendString, stringItem]
    exact appendText_writes key [byte]
  by_cases zero : byte = 0
  · subst zero
    have subtype := appendSubtype_writes subt rest
    change WritesOrFails (fun b => appendKey b subt key >>= fun b => appendSubtype b subt rest)
      (((subtypeBytes subt rest).map (Item.leaf subt)).map (fieldBytes key))
    cases payload : subtypeBytes subt rest with
    | none =>
      rw [payload] at subtype
      exact fun b => .bind fun b => subtype b
    | some bytes =>
      rw [payload] at subtype
      exact (appendKey_writes subt key).bind subtype
  · have plain : ∀ subt' rest', byte :: subt :: rest = 0 :: subt' :: rest' → False := by
      simp [zero]
    have item : stringItem (byte :: subt :: rest) =
        some (.leaf bsonString (textBytes (byte :: subt :: rest))) := by
      unfold stringItem
      split
      · exact (plain _ _ ‹_›).elim
      · rfl
    have act (b : Bson) : appendString b key (byte :: subt :: rest) =
        appendText b key (byte :: subt :: rest) := by
      unfold appendString
      split
      · exact (plain _ _ ‹_›).elim
      · rfl
    simp only [item, act]
    exact appendText_writes key (byte :: subt :: rest)

theorem appendUserdata_writes (key doc : List UInt8) :
    WritesOrFails (fun b => appendUserdata b key doc) ((userdataItem doc).map (fieldBytes key)) := by
  unfold userdataItem
  by_cases short : doc.length < 4
  · rw [if_pos (.inl short)]
    intro b
    refine .bind fun b => ⟨.outside, ?_⟩
    exact if_pos short
  by_cases wrong : (word doc).toInt32.toInt < 0 ∨ doc.length < (word doc).toInt32.toInt
  · rw [if_pos (by tauto)]
    intro b
    refine .bind fun b => ?_
    simp only [if_neg short]
    exact .bind fun b => ⟨.outside, if_pos wrong⟩
  · rw [if_neg (by tauto)]
    refine (appendKey_writes bsonDocument key).bind ?_
    simp only [if_neg short, if_neg wrong]
    refine store_writes _ _ fun _ => ?_
    rw [List.length_take]
    omega

section

variable (number2str : UInt64 → List UInt8)

theorem packEntries_writes (array : Bool) (entries : Entries)
    (each : ∀ entry ∈ entries, ∀ key, WritesOrFails
      (fun b => appendOne number2str b key entry.2)
      ((itemOf number2str entry.2).map (fieldBytes key))) :
    WritesOrFails (fun b => packEntries number2str array b entries)
      ((fieldsOf number2str array entries).map fieldsBytes) := by
  induction entries with
  | nil => exact Writes.nothing
  | cons entry entries ih =>
    obtain ⟨key, value⟩ := entry
    have later := ih fun other inside => each other (by simp [inside])
    simp only [packEntries, fieldsOf]
    cases elementKey number2str array key with
    | error fault => exact fun b => ⟨fault, rfl⟩
    | ok text =>
      have both := (each (key, value) (by simp) text).bind later
      cases same : itemOf number2str value with
      | none =>
        rw [same] at both
        exact both
      | some item =>
        rw [same] at both
        cases rest : fieldsOf number2str array entries with
        | none =>
          rw [rest] at both
          exact both
        | some fields =>
          rw [rest] at both
          change Writes _ (fieldsBytes ((text, item) :: fields))
          rw [fieldsBytes_cons]
          exact both

theorem appendTable_writes (rawlen : Nat) (entries : Entries) (key : List UInt8)
    (pack : Bool → Bson → Except Fault Bson) (fields : Bool → Option Fields)
    (writes : ∀ array, WritesOrFails (pack array) ((fields array).map fieldsBytes)) :
    WritesOrFails (fun b => appendTable pack b key rawlen entries)
      (match isArray rawlen entries with
      | .error _ => none
      | .ok array => ((fields array).map (Item.table array)).map (fieldBytes key)) := by
  unfold appendTable
  cases isArray rawlen entries with
  | error fault => exact fun b => ⟨fault, rfl⟩
  | ok array =>
    have head : WritesOrFails (fun b => appendKey b (if array then bsonArray else bsonDocument) key)
        (some ((if array then bsonArray else bsonDocument) :: (key ++ [0]))) := appendKey_writes _ key
    have whole := head.bind (packDict_writesOrFails _ _ (writes array))
    change WritesOrFails _ (((fields array).map (Item.table array)).map (fieldBytes key))
    cases same : fields array with
    | none =>
      rw [same] at whole
      exact whole
    | some found =>
      rw [same] at whole
      exact whole

theorem appendOne_writes (value : Value) (key : List UInt8) :
    WritesOrFails (fun b => appendOne number2str b key value)
      ((itemOf number2str value).map (fieldBytes key)) := by
  induction value using Value.induct generalizing key with
  | nil => exact fun b => ⟨_, rfl⟩
  | boolean v => exact (appendKey_writes bsonBoolean key).bind (writeByte_writes _)
  | integer i => exact integer_writes key i
  | number d => exact (appendKey_writes bsonReal key).bind (writeDouble_writes d)
  | string str => exact appendString_writes key str
  | table rawlen entries ih =>
    have writes := appendTable_writes rawlen entries key
      (fun array b => packEntries number2str array b entries)
      (fun array => fieldsOf number2str array entries)
      fun array => packEntries_writes number2str array entries fun entry inside => ih entry inside
    simp only [appendOne, itemOf]
    cases same : isArray rawlen entries with
    | error fault =>
      rw [same] at writes
      exact writes
    | ok array =>
      rw [same] at writes
      exact writes
  | userdata doc => exact appendUserdata_writes key doc
  | other typename => exact fun b => ⟨_, rfl⟩

theorem writeByte_last {b : Bson} (sound : b.Sound) (v : UInt8) (room : b.size < 2 ^ 30) :
    ∃ b', writeByte b v = .ok b' := by
  have space : b.size + (1 : Int) < 2 ^ 30 ∨ b.size + (1 : Int) ≤ b.cap := by
    by_cases full : b.size + 1 = 2 ^ 30
    · obtain ⟨k, bound, cap⟩ := sound.power
      have whole := sound.room
      have power : 2 ^ 29 < 2 ^ k := by omega
      have last : k = 30 := by
        have more := (Nat.pow_lt_pow_iff_right (by omega)).mp power
        omega
      subst last
      omega
    · omega
  obtain ⟨reserved, done, fits⟩ := bsonReserve_enough 1 sound (by omega) space
  obtain ⟨-, same, -⟩ := bsonReserve_ok sound done
  refine ⟨{ reserved with ptr := reserved.ptr ++ [v] }, ?_⟩
  rw [writeByte, done]
  refine if_pos ?_
  rw [Bson.size, same]
  rw [Bson.size] at fits
  exact_mod_cast fits

theorem lencode_ok (entries : Entries) (document : List UInt8) :
    lencode number2str entries = .ok document ↔
      ∃ fields, fieldsOf number2str false entries = some fields ∧
        document = enclosed (fieldsBytes fields) ∧ document.length ≤ 2 ^ 30 := by
  have packs := packEntries_writes number2str false entries
    fun entry _ => appendOne_writes number2str entry.2
  constructor
  · intro encoded
    obtain ⟨b, done, same⟩ := Outcome.map_ok.mp encoded
    cases written : fieldsOf number2str false entries with
    | none =>
      rw [written] at packs
      obtain ⟨fault, failed⟩ := packDict_writesOrFails _ none packs bsonCreate
      have both := failed.symm.trans done
      exact nomatch both
    | some fields =>
      rw [written] at packs
      have appended := packDict_writes _ _ packs bsonCreate bsonCreate_sound
      obtain ⟨-, ptr⟩ := appended.right b done
      rw [same] at ptr
      refine ⟨fields, rfl, ptr, ?_⟩
      rw [ptr]
      exact (Nat.zero_add _).symm.trans_le (appended.fits done)
  · rintro ⟨fields, written, rfl, small⟩
    rw [written] at packs
    have sound : Bson.Sound ⟨[0, 0, 0, 0], defaultCap⟩ := ⟨by decide, 6, by omega, rfl⟩
    have total : (enclosed (fieldsBytes fields)).length = (fieldsBytes fields).length + 5 := by
      rw [enclosed, List.length_append, List.length_append, length_bytes, List.length_singleton]
      omega
    have appended : Appends _ (fieldsBytes fields)
        (packEntries number2str false ⟨[0, 0, 0, 0], defaultCap⟩ entries) := packs _ sound
    have start : Bson.size ⟨[0, 0, 0, 0], defaultCap⟩ = 4 := rfl
    obtain ⟨packed, done⟩ := appended.enough (by omega)
    obtain ⟨sound', ptr⟩ := appended.right packed done
    have size : packed.size = 4 + (fieldsBytes fields).length := by
      rw [Bson.size, ptr, List.length_append]
      rfl
    obtain ⟨last, ended⟩ := writeByte_last sound' 0 (by omega)
    have whole : packDict (fun b => packEntries number2str false b entries) bsonCreate =
        .ok (writeLength last (UInt32.ofNat (last.size - 0)) 0) := by
      have step : packDict (fun b => packEntries number2str false b entries) bsonCreate =
          (packEntries number2str false ⟨[0, 0, 0, 0], defaultCap⟩ entries >>=
            fun b => writeByte b 0).map fun b => writeLength b (UInt32.ofNat (b.size - 0)) 0 := rfl
      rw [step, done]
      change (writeByte packed 0).map _ = _
      rw [ended]
      rfl
    have bytes := (packDict_writes _ _ packs bsonCreate bsonCreate_sound).right _ whole
    rw [lencode, whole]
    exact congrArg Except.ok bytes.2

end

end Pskynet.Bson
