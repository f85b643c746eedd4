import Pskynet.Seri.Serialize
import Pskynet.Shared.Outcome
import Pskynet.Shared.Words

set_option autoImplicit false

namespace Pskynet.Seri

open Lua Memory Slots

def integerForm (v : Int64) : Nat × Nat :=
  if v = 0 then (typeNumberZero, 0)
  else if v ≠ v.toInt32.toInt64 then (typeNumberQword, 8)
  else if v < 0 then (typeNumberDword, 4)
  else if v < 0x100 then (typeNumberByte, 1)
  else if v < 0x10000 then (typeNumberWord, 2)
  else (typeNumberDword, 4)

def encodeInteger (v : Int64) : List UInt8 :=
  combineType typeNumber (integerForm v).1 :: LittleEndian.bytes (integerForm v).2 v.toUInt64.toNat

def encodeString (str : List UInt8) : List UInt8 :=
  if str.length < maxCookie then combineType typeShortString str.length :: str
  else if str.length < 0x10000 then
    combineType typeLongString 2 :: (LittleEndian.bytes 2 str.length ++ str)
  else combineType typeLongString 4 :: (LittleEndian.bytes 4 str.length ++ str)

def encodeScalar : Scalar → List UInt8
  | .nil => [UInt8.ofNat typeNil]
  | .boolean b => [combineType typeBoolean (if b then 1 else 0)]
  | .integer v => encodeInteger v
  | .number n => combineType typeNumber typeNumberReal :: LittleEndian.bytes 8 n.toNat
  | .string str => encodeString str
  | .lightuserdata address => UInt8.ofNat typeUserdata :: LittleEndian.bytes 8 address.toNat

def encodeHead (rawlen : Nat) : List UInt8 :=
  if rawlen ≥ maxCookie - 1 then
    combineType typeTable (maxCookie - 1 : Nat) :: encodeInteger (Int64.ofNat rawlen)
  else [combineType typeTable rawlen]

def encodeBody (bytes : LuaValue → List UInt8) (rawlen : Nat) (entries : Entries) : List UInt8 :=
  (List.range' 1 rawlen).flatMap (fun i => bytes (rawgeti entries i)) ++
    (entries.flatMap (fun entry => if inArray rawlen entry.1 then []
      else bytes entry.1 ++ bytes entry.2) ++ [UInt8.ofNat typeNil])

def encode : Nat → LuaValue → List UInt8
  | 0, _ => []
  | levels + 1, value =>
      match value with
      | .scalar s => encodeScalar s
      | .table rawlen entries =>
          encodeHead rawlen ++ encodeBody (encode levels) rawlen entries
      | .other _ => []

def WriteBlock.written (wb : WriteBlock) : List UInt8 :=
  wb.before.flatMap (·.buffer) ++ wb.current.buffer.take wb.ptr

structure WriteBlock.Sound (wb : WriteBlock) : Prop where
  counted : wb.len = wb.written.length
  fits : wb.len < 2 ^ 31

-- `result` is `wb` with `bytes` behind what it holds, or the length has overflowed.
structure Appends (wb : WriteBlock) (bytes : List UInt8) (result : Except Fault WriteBlock) :
    Prop where
  enough : wb.len + bytes.length < 2 ^ 31 →
    ∃ wb', result = .ok wb' ∧ wb'.Sound ∧ wb'.written = wb.written ++ bytes
  tooLong : 2 ^ 31 ≤ wb.len + bytes.length → result = .error .overflow

def Writes (act : WriteBlock → Except Fault WriteBlock) (bytes : List UInt8) : Prop :=
  ∀ wb, wb.Sound → Appends wb bytes (act wb)

theorem Writes.nothing : Writes pure [] := by
  intro wb sound
  refine ⟨fun _ => ⟨wb, rfl, sound, by simp⟩, ?_⟩
  intro large
  exact absurd sound.fits (by simpa using large)

theorem Appends.bind {wb : WriteBlock} {result : Except Fault WriteBlock}
    {second : WriteBlock → Except Fault WriteBlock} {xs ys : List UInt8} (sound : wb.Sound)
    (first : Appends wb xs result) (secondWrites : Writes second ys) :
    Appends wb (xs ++ ys) (result >>= second) := by
  by_cases room : wb.len + xs.length < 2 ^ 31
  · obtain ⟨middle, done, sound', written⟩ := first.enough room
    have len : middle.len = wb.len + xs.length := by
      rw [sound'.counted, written, List.length_append, sound.counted]
    have rest := secondWrites middle sound'
    rw [done]
    constructor
    · intro fits
      rw [List.length_append] at fits
      obtain ⟨last, done', sound'', written'⟩ := rest.enough (by omega)
      refine ⟨last, done', sound'', ?_⟩
      rw [written', written, List.append_assoc]
    · intro large
      rw [List.length_append] at large
      exact rest.tooLong (by omega)
  · constructor
    · intro fits
      rw [List.length_append] at fits
      omega
    · intro _
      rw [first.tooLong (by omega)]
      rfl

theorem Writes.bind {first second : WriteBlock → Except Fault WriteBlock} {xs ys : List UInt8}
    (firstWrites : Writes first xs) (secondWrites : Writes second ys) :
    Writes (fun wb => first wb >>= second) (xs ++ ys) :=
  fun wb sound => (firstWrites wb sound).bind sound secondWrites

theorem Writes.foldlM {α : Type} (step : WriteBlock → α → Except Fault WriteBlock)
    (bytes : α → List UInt8) (items : List α)
    (each : ∀ item ∈ items, Writes (fun wb => step wb item) (bytes item)) :
    Writes (fun wb => items.foldlM step wb) (items.flatMap bytes) := by
  induction items with
  | nil => exact .nothing
  | cons item items ih =>
    simp only [List.foldlM_cons, List.flatMap_cons]
    exact (each item (by simp)).bind (ih fun other inside => each other (by simp [inside]))

theorem WriteBlock.written_room (wb : WriteBlock) : wb.room.written = wb.written := by
  unfold WriteBlock.room
  split_ifs with full
  · have whole : wb.current.buffer.take wb.ptr = wb.current.buffer := by
      rw [full, ← wb.current.size, List.take_length]
    simp [WriteBlock.written, WriteBlock.next, whole]
  · rfl

theorem WriteBlock.len_room (wb : WriteBlock) : wb.room.len = wb.len := by
  unfold WriteBlock.room
  split_ifs <;> rfl

theorem WriteBlock.Sound.room {wb : WriteBlock} (sound : wb.Sound) : wb.room.Sound :=
  ⟨by rw [wb.len_room, wb.written_room, sound.counted], by rw [wb.len_room]; exact sound.fits⟩

theorem Appends.of_room {wb : WriteBlock} {bytes : List UInt8} {result : Except Fault WriteBlock}
    (appends : Appends wb.room bytes result) : Appends wb bytes result := by
  obtain ⟨enough, tooLong⟩ := appends
  rw [wb.len_room, wb.written_room] at enough
  rw [wb.len_room] at tooLong
  exact ⟨enough, tooLong⟩

theorem copy_appends (wb : WriteBlock) (buffer : List UInt8)
    (fits : wb.ptr + buffer.length ≤ blockSize) (sound : wb.Sound) :
    Appends wb buffer (wb.copy buffer fits) := by
  have inside : wb.ptr + buffer.length ≤ wb.current.buffer.length := by
    rw [wb.current.size]
    exact fits
  constructor
  · intro small
    refine ⟨_, by rw [WriteBlock.copy, if_pos small], ⟨?_, small⟩, ?_⟩
    · simp only [WriteBlock.written, take_memcpy _ _ _ inside]
      rw [sound.counted, WriteBlock.written]
      simp only [List.length_append]
      omega
    · simp only [WriteBlock.written, take_memcpy _ _ _ inside, List.append_assoc]
  · intro large
    rw [WriteBlock.copy, if_neg (by omega)]

theorem wbPush_writes (buffer : List UInt8) : Writes (fun wb => wbPush wb buffer) buffer := by
  induction size : buffer.length using Nat.strong_induction_on generalizing buffer with
  | h n ih =>
    intro wb sound
    have bound := wb.room_lt
    refine Appends.of_room ?_
    beta_reduce
    unfold wbPush
    by_cases fits : wb.room.ptr + buffer.length ≤ blockSize
    · rw [dif_pos fits]
      exact copy_appends wb.room buffer fits sound.room
    · rw [dif_neg fits]
      have first : wb.room.ptr + (buffer.take (blockSize - wb.room.ptr)).length ≤ blockSize := by
        rw [List.length_take]
        omega
      have rest := ih (buffer.drop (blockSize - wb.room.ptr)).length
        (by rw [List.length_drop]; omega) _ rfl
      have both := (copy_appends wb.room _ first sound.room).bind sound.room rest
      rw [List.take_append_drop] at both
      exact both

theorem toCInt_eq (n : Nat) (small : n < 2 ^ 31) : toCInt n = n :=
  Int32.toInt_ofNat_of_lt small

theorem wbInteger_writes (v : Int64) : Writes (fun wb => wbInteger wb v) (encodeInteger v) := by
  have low : LittleEndian.bytes 4 v.toInt32.toUInt32.toNat =
      LittleEndian.bytes 4 v.toUInt64.toNat := by
    rw [Words.toNat_low_half]
    exact LittleEndian.bytes_mod 4 _
  have two (cookie width n : Nat) (same : LittleEndian.bytes width n =
      LittleEndian.bytes width v.toUInt64.toNat) :
      Writes (fun wb => wbPush wb [combineType typeNumber cookie] >>= fun wb =>
        wbPush wb (LittleEndian.bytes width n))
        (combineType typeNumber cookie :: LittleEndian.bytes width v.toUInt64.toNat) := by
    rw [← same]
    exact (wbPush_writes [_]).bind (wbPush_writes _)
  unfold wbInteger encodeInteger integerForm
  split_ifs with zero wide negative byte word
  · exact wbPush_writes _
  · exact two typeNumberQword 8 _ rfl
  · exact two typeNumberDword 4 _ low
  · refine two typeNumberByte 1 _ ?_
    rw [UInt64.toNat_toUInt8]
    exact LittleEndian.bytes_mod 1 _
  · refine two typeNumberWord 2 _ ?_
    rw [UInt64.toNat_toUInt16]
    exact LittleEndian.bytes_mod 2 _
  · refine two typeNumberDword 4 _ ?_
    rw [UInt64.toNat_toUInt32]
    exact LittleEndian.bytes_mod 4 _

theorem wbString_writes (str : List UInt8) (small : str.length < 2 ^ 31) :
    Writes (fun wb => wbString wb str (toCInt str.length)) (encodeString str) := by
  have long (cookie : Int) (width : Nat) :
      Writes (fun wb => wbPush wb [combineType typeLongString cookie] >>= fun wb =>
        wbPush wb (LittleEndian.bytes width str.length) >>= fun wb => wbPush wb str)
        (combineType typeLongString cookie :: (LittleEndian.bytes width str.length ++ str)) :=
    (wbPush_writes [_]).bind ((wbPush_writes _).bind (wbPush_writes _))
  have short : ((str.length : Int) < maxCookie) ↔ str.length < maxCookie := Int.ofNat_lt
  have medium : ((str.length : Int) < 0x10000) ↔ str.length < 0x10000 := by omega
  rw [toCInt_eq _ small]
  unfold wbString encodeString
  simp only [Int.toNat_natCast, List.take_length, short, medium]
  split_ifs with first some second
  · exact (wbPush_writes [_]).bind (wbPush_writes str)
  · have empty : str = [] := List.length_eq_zero_iff.mp (by omega)
    rw [empty]
    exact (wbPush_writes [_]).bind .nothing
  · exact long 2 2
  · exact long 4 4

-- A value that `MAX_DEPTH` lets through, where `levels` tables may still enclose it.
inductive Packable : Nat → LuaValue → Prop where
  | scalar (levels : Nat) (s : Scalar) (small : ∀ str, s = .string str → str.length < 2 ^ 31) :
      Packable levels (.scalar s)
  | empty (levels : Nat) : Packable levels (.table 0 [])
  | table (levels rawlen : Nat) (entries : Entries) (border : rawlen < 2 ^ 31)
      (keys : ∀ entry ∈ entries, ∃ key : Scalar, entry.1 = .scalar key ∧ toKey key = .ok key ∧
        ∀ str, key = .string str → str.length < 2 ^ 31)
      (distinct : (entries.map (·.1)).Nodup)
      (values : ∀ entry ∈ entries, Packable levels entry.2) :
      Packable (levels + 1) (.table rawlen entries)

-- The free slots that `pack_one` needs, with a table on the way down in one slot where it is in an
-- array, and in two behind its key elsewhere.
def packSlots : Nat → LuaValue → Nat
  | levels + 1, .table rawlen entries =>
      max 1 (max
        (most ((List.range' 1 rawlen).map fun i => 1 + packSlots levels (rawgeti entries i)))
        (most (entries.map fun entry => 2 + if inArray rawlen entry.1 then 0
          else max (packSlots levels entry.1) (packSlots levels entry.2))))
  | _, _ => 0

theorem packSlots_table_le (levels rawlen room : Nat) (entries : Entries) :
    packSlots (levels + 1) (.table rawlen entries) ≤ room ↔
      1 ≤ room ∧
      (∀ i ∈ List.range' 1 rawlen, 1 + packSlots levels (rawgeti entries i) ≤ room) ∧
      ∀ entry ∈ entries, (2 + if inArray rawlen entry.1 then 0
        else max (packSlots levels entry.1) (packSlots levels entry.2)) ≤ room := by
  rw [packSlots, max_le_iff, max_le_iff, most_map_le_iff, most_map_le_iff]

theorem packOne_scalar (levels room : Nat) (s : Scalar)
    (small : ∀ str, s = .string str → str.length < 2 ^ 31) :
    Writes (fun wb => packOne (levels + 1) room wb (.scalar s)) (encodeScalar s) := by
  cases s with
  | nil => exact wbPush_writes _
  | boolean b => exact wbPush_writes _
  | integer v => exact wbInteger_writes v
  | number n => exact (wbPush_writes [_]).bind (wbPush_writes _)
  | string str => exact wbString_writes str (small str rfl)
  | lightuserdata address => exact (wbPush_writes [_]).bind (wbPush_writes _)

theorem Writes.claim {room need : Nat} (fits : need ≤ room)
    {act : Nat → WriteBlock → Except Fault WriteBlock} {bytes : List UInt8}
    (writes : Writes (act (room - need)) bytes) :
    Writes (fun wb => Slots.claim .stack room need >>= fun room => act room wb) bytes := by
  rw [Slots.claim, within_of_le fits]
  exact writes

theorem wbTable_writes (pack : Nat → WriteBlock → LuaValue → Except Fault WriteBlock) (room : Nat)
    (bytes : LuaValue → List UInt8) (rawlen : Nat) (entries : Entries) (border : rawlen < 2 ^ 31)
    (some : 1 ≤ room)
    (array : ∀ i ∈ List.range' 1 rawlen,
      Writes (fun wb => pack (room - 1) wb (rawgeti entries i)) (bytes (rawgeti entries i)))
    (hash : ∀ entry ∈ entries, 2 ≤ room ∧ (¬inArray rawlen entry.1 = true →
      Writes (fun wb => pack (room - 2) wb entry.1) (bytes entry.1) ∧
      Writes (fun wb => pack (room - 2) wb entry.2) (bytes entry.2))) :
    Writes (fun wb => wbTable pack room wb rawlen entries)
      (encodeHead rawlen ++ encodeBody bytes rawlen entries) := by
  have head : Writes (fun wb =>
      if (rawlen : Int) ≥ maxCookie - 1 then
        wbPush wb [combineType typeTable (maxCookie - 1 : Nat)] >>= fun wb =>
          wbInteger wb (Int64.ofInt rawlen)
      else wbPush wb [combineType typeTable rawlen]) (encodeHead rawlen) := by
    unfold encodeHead
    have long : ((rawlen : Int) ≥ maxCookie - 1) ↔ rawlen ≥ maxCookie - 1 := by
      simp only [maxCookie]
      omega
    simp only [long]
    split_ifs
    · exact (wbPush_writes [_]).bind (wbInteger_writes _)
    · exact wbPush_writes _
  have elements := Writes.foldlM
    (fun wb i => claim .stack room 1 >>= fun room => pack room wb (rawgeti entries i))
    (fun i => bytes (rawgeti entries i)) (List.range' 1 rawlen)
    fun i inside => Writes.claim some (array i inside)
  have pairs := Writes.foldlM (fun wb (entry : LuaValue × LuaValue) =>
      claim .stack room 2 >>= fun room =>
        if inArray rawlen entry.1 then pure wb
        else pack room wb entry.1 >>= fun wb => pack room wb entry.2)
    (fun entry => if inArray rawlen entry.1 then [] else bytes entry.1 ++ bytes entry.2) entries
    (by
      intro entry inside
      obtain ⟨two, each⟩ := hash entry inside
      refine Writes.claim two ?_
      split_ifs with element
      · exact .nothing
      · exact (each element).1.bind (each element).2)
  have hashed := @Writes.claim room 1 some (fun _ wb => entries.foldlM _ wb) _ pairs
  have whole := head.bind (elements.bind (hashed.bind (wbPush_writes [UInt8.ofNat typeNil])))
  rw [← encodeBody] at whole
  convert whole using 2
  simp only [wbTable, wbTableArray, wbTableHash, wbNil, toCInt_eq _ border, Int.toNat_natCast]
  split_ifs <;> simp only [bind_assoc]

theorem packOne_writes (levels room : Nat) (value : LuaValue) (packable : Packable levels value)
    (fits : packSlots (levels + 1) value ≤ room) :
    Writes (fun wb => packOne (levels + 1) room wb value) (encode (levels + 1) value) := by
  induction packable generalizing room with
  | scalar levels s small => exact packOne_scalar levels room s small
  | empty levels =>
    obtain ⟨some, -, -⟩ := (packSlots_table_le ..).mp fits
    exact wbTable_writes (packOne levels) room (encode levels) 0 [] (by decide) some (by simp)
      (by simp)
  | table levels rawlen entries border keys distinct values ih =>
    obtain ⟨some, array, hash⟩ := (packSlots_table_le ..).mp fits
    refine wbTable_writes (packOne (levels + 1)) room (encode (levels + 1)) rawlen entries border
      some ?_ ?_
    · intro i inside
      have less := array i inside
      rcases rawget_cases entries (.integer (Int64.ofNat i)) with ⟨none, _⟩ | ⟨entry, there, _, found⟩
      · rw [rawgeti, none]
        exact packOne_scalar levels _ .nil (by simp)
      · rw [rawgeti, found] at less ⊢
        exact ih entry there _ (by omega)
    · intro entry inside
      have less := hash entry inside
      refine ⟨by omega, ?_⟩
      intro pair
      rw [if_neg pair] at less
      obtain ⟨key, same, _, small⟩ := keys entry inside
      refine ⟨?_, ih entry inside _ (by omega)⟩
      rw [same]
      exact packOne_scalar levels _ key small

theorem wbTableArray_ok {pack : Nat → WriteBlock → LuaValue → Except Fault WriteBlock} {room : Nat}
    {wb wb' : WriteBlock} {entries : Entries} {arraySize : Int}
    (done : wbTableArray pack room wb entries arraySize = .ok wb') :
    ∃ headed, (List.range' 1 arraySize.toNat).foldlM (fun wb i => do
      let room ← claim Fault.stack room 1
      pack room wb (rawgeti entries i)) headed = .ok wb' := by
  unfold wbTableArray at done
  dsimp only at done
  split_ifs at done
  · obtain ⟨_, -, done⟩ := Outcome.bind_ok.mp done
    obtain ⟨headed, -, elements⟩ := Outcome.bind_ok.mp done
    exact ⟨headed, elements⟩
  · obtain ⟨headed, -, elements⟩ := Outcome.bind_ok.mp done
    exact ⟨headed, elements⟩

theorem packOne_fits (levels room : Nat) (value : LuaValue) (packable : Packable levels value)
    (wb wb' : WriteBlock) (done : packOne (levels + 1) room wb value = .ok wb') :
    packSlots (levels + 1) value ≤ room := by
  induction packable generalizing room wb wb' with
  | scalar levels s small => exact Nat.zero_le _
  | empty levels =>
    obtain ⟨filled, -, hashed⟩ := Outcome.bind_ok.mp done
    obtain ⟨left, claimed, -⟩ := Outcome.bind_ok.mp hashed
    exact (packSlots_table_le ..).mpr ⟨(within_ok claimed).1, by simp, by simp⟩
  | table levels rawlen entries border keys distinct values ih =>
    obtain ⟨filled, arrays, hashed⟩ := Outcome.bind_ok.mp done
    obtain ⟨headed, elements⟩ := wbTableArray_ok arrays
    obtain ⟨left, claimed, pairs⟩ := Outcome.bind_ok.mp hashed
    obtain ⟨written, pairs, -⟩ := Outcome.bind_ok.mp pairs
    rw [toCInt_eq _ border] at elements pairs
    refine (packSlots_table_le ..).mpr ⟨(within_ok claimed).1, ?_, ?_⟩
    · intro i inside
      obtain ⟨before, after, packed⟩ := Outcome.foldlM_each elements i inside
      obtain ⟨left, claimed, packed⟩ := Outcome.bind_ok.mp packed
      obtain ⟨some, rfl⟩ := within_ok claimed
      rcases rawget_cases entries (.integer (Int64.ofNat i)) with ⟨none, _⟩ | ⟨entry, there, _, found⟩
      · rw [rawgeti, none]
        exact some
      · rw [rawgeti, found] at packed ⊢
        have less := ih entry there _ before after packed
        omega
    · intro entry inside
      obtain ⟨before, after, packed⟩ := Outcome.foldlM_each pairs entry inside
      obtain ⟨left, claimed, packed⟩ := Outcome.bind_ok.mp packed
      obtain ⟨two, rfl⟩ := within_ok claimed
      split_ifs with element
      · exact two
      · rw [if_neg element] at packed
        obtain ⟨middle, -, packed⟩ := Outcome.bind_ok.mp packed
        have less := ih entry inside _ middle after packed
        obtain ⟨key, same, _, -⟩ := keys entry inside
        have none : packSlots (levels + 1) entry.1 = 0 := by
          rw [same]
          rfl
        omega

theorem seri_written (before : List Block) (current : Block) (ptr : Nat) (bound : ptr ≤ blockSize) :
    seri (before ++ [current]) (before.flatMap (·.buffer) ++ current.buffer.take ptr).length =
      before.flatMap (·.buffer) ++ current.buffer.take ptr := by
  induction before with
  | nil =>
    have length : (current.buffer.take ptr).length = ptr := by
      rw [List.length_take, current.size]
      omega
    simp only [List.flatMap_nil, List.nil_append, length, seri]
    split_ifs with full
    · rw [List.take_of_length_le (by rw [current.size]; omega), List.append_nil]
    · rfl
  | cons block before ih =>
    have size := block.size
    have long : blockSize ≤ ((block :: before).flatMap (·.buffer) ++ current.buffer.take ptr).length := by
      rw [List.flatMap_cons, List.length_append, List.length_append]
      omega
    rw [List.cons_append, seri, if_pos long]
    simp only [List.flatMap_cons, List.append_assoc, List.length_append, size,
      Nat.add_sub_cancel_left] at ih ⊢
    rw [ih]

theorem wbInit_sound : wbInit.Sound := ⟨rfl, by decide⟩

def encodeAll (values : List LuaValue) : List UInt8 := values.flatMap (encode (maxDepth + 1))

theorem luaseriPack_eq (values : List LuaValue) (packable : ∀ v ∈ values, Packable maxDepth v)
    (fits : ∀ v ∈ values, packSlots (maxDepth + 1) v ≤ minStack) :
    ((encodeAll values).length < 2 ^ 31 → luaseriPack values = .ok (encodeAll values)) ∧
      (2 ^ 31 ≤ (encodeAll values).length → luaseriPack values = .error .overflow) := by
  have writes := Writes.foldlM (packOne (maxDepth + 1) minStack) (encode (maxDepth + 1)) values
    fun v inside => packOne_writes maxDepth minStack v (packable v inside) (fits v inside)
  have result := writes wbInit wbInit_sound
  have start : wbInit.len = 0 := rfl
  have empty : wbInit.written = [] := rfl
  rw [← encodeAll] at result
  obtain ⟨enough, tooLong⟩ := result
  rw [start, Nat.zero_add] at enough tooLong
  rw [empty, List.nil_append] at enough
  constructor
  · intro small
    obtain ⟨wb, done, sound, written⟩ := enough small
    have packed : packFrom wbInit values = .ok wb := done
    rw [luaseriPack, packed]
    change Except.ok (seri (wb.before ++ [wb.current]) wb.len) = _
    rw [sound.counted, WriteBlock.written, seri_written _ _ _ wb.ptr_le, ← WriteBlock.written, written]
  · intro large
    have failed : packFrom wbInit values = .error .overflow := tooLong large
    rw [luaseriPack, failed]
    rfl

theorem luaseriPack_fits (values : List LuaValue) (packable : ∀ v ∈ values, Packable maxDepth v)
    (buffer : List UInt8) (done : luaseriPack values = .ok buffer) :
    ∀ v ∈ values, packSlots (maxDepth + 1) v ≤ minStack := by
  obtain ⟨wb, packed, -⟩ := Outcome.bind_ok.mp done
  intro v inside
  obtain ⟨before, after, one⟩ := Outcome.foldlM_each packed v inside
  exact packOne_fits maxDepth minStack v (packable v inside) before after one

end Pskynet.Seri
