import Mathlib.Tactic
import Pskynet.Lua.Value
import Pskynet.Shared.CInt
import Pskynet.Shared.LittleEndian
import Pskynet.Shared.Slots

set_option autoImplicit false

namespace Pskynet.Bson

inductive Key where
  | integer (value : Int64)
  | number (bits : UInt64)
  | string (bytes : List UInt8)
  | other (typename : String) (identity : Nat)
  deriving DecidableEq, Repr

-- A `double` is its 64 bits. The entries of a table are in the order of `lua_next`, and `rawlen` is
-- the border that `lua_rawlen` finds in it; a userdata is the bytes of its document.
inductive Value where
  | nil
  | boolean (value : Bool)
  | integer (value : Int64)
  | number (bits : UInt64)
  | string (bytes : List UInt8)
  | table (rawlen : Nat) (entries : List (Key × Value))
  | userdata (document : List UInt8)
  | other (typename : String)
  deriving Repr

abbrev Entries := List (Key × Value)

def Key.typename : Key → String
  | .integer _ | .number _ => "number"
  | .string _ => "string"
  | .other typename _ => typename

def Value.typename : Value → String
  | .nil => "nil"
  | .boolean _ => "boolean"
  | .integer _ | .number _ => "number"
  | .string _ => "string"
  | .table _ _ => "table"
  | .userdata _ => "userdata"
  | .other typename => typename

def Entries.keys (entries : Entries) : List Key := entries.map (·.1)

def rawget : Entries → Key → Value
  | [], _ => .nil
  | (found, value) :: entries, key => if found = key then value else rawget entries key

def rawset (entries : Entries) (key : Key) (value : Value) : Entries :=
  entries.filter (fun entry => entry.1 ≠ key) ++ [(key, value)]

@[elab_as_elim]
theorem Value.induct {P : Value → Prop} (nil : P .nil) (boolean : ∀ v, P (.boolean v))
    (integer : ∀ v, P (.integer v)) (number : ∀ bits, P (.number bits))
    (string : ∀ bytes, P (.string bytes))
    (table : ∀ rawlen entries, (∀ entry ∈ entries, P entry.2) → P (.table rawlen entries))
    (userdata : ∀ document, P (.userdata document)) (other : ∀ typename, P (.other typename))
    (value : Value) : P value :=
  Value.rec (motive_1 := P) (motive_2 := fun entries => ∀ entry ∈ entries, P entry.2)
    (motive_3 := fun entry => P entry.2) nil boolean integer number string table userdata other
    (by simp) (fun _ _ head tail => List.forall_mem_cons.mpr ⟨head, tail⟩) (fun _ _ value => value)
    value

theorem rawget_of_notMem (entries : Entries) (key : Key) (absent : key ∉ entries.keys) :
    rawget entries key = .nil := by
  induction entries with
  | nil => rfl
  | cons entry entries ih =>
    rw [Entries.keys, List.map_cons, List.mem_cons, not_or] at absent
    rw [rawget, if_neg (Ne.symm absent.1)]
    exact ih absent.2

theorem rawget_of_mem (entries : Entries) (distinct : entries.keys.Nodup) (entry : Key × Value)
    (inside : entry ∈ entries) : rawget entries entry.1 = entry.2 := by
  induction entries with
  | nil => simp at inside
  | cons first entries ih =>
    rw [Entries.keys, List.map_cons, List.nodup_cons] at distinct
    rcases List.mem_cons.mp inside with rfl | later
    · rw [rawget, if_pos rfl]
    · have other : first.1 ≠ entry.1 := by
        intro same
        apply distinct.1
        rw [same]
        exact List.mem_map_of_mem later
      rw [rawget, if_neg other]
      exact ih distinct.2 later

theorem rawget_cases (entries : Entries) (key : Key) :
    rawget entries key = .nil ∨ ∃ entry ∈ entries, entry.1 = key ∧ rawget entries key = entry.2 := by
  induction entries with
  | nil => exact .inl rfl
  | cons entry entries ih =>
    rw [rawget]
    split_ifs with here
    · exact .inr ⟨entry, by simp, here, rfl⟩
    · rcases ih with empty | ⟨found, inside, same, value⟩
      · exact .inl empty
      · exact .inr ⟨found, by simp [inside], same, value⟩

theorem rawget_append (entries : Entries) (key other : Key) (value : Value)
    (fresh : ∀ entry ∈ entries, entry.1 ≠ key) :
    rawget (entries ++ [(key, value)]) other =
      if other = key then value else rawget entries other := by
  induction entries with
  | nil =>
    simp only [List.nil_append, rawget]
    simp only [eq_comm]
  | cons entry entries ih =>
    rw [List.cons_append, rawget, rawget, ih fun entry inside => fresh entry (by simp [inside])]
    split_ifs with here same
    · exact absurd (here.trans same) (fresh entry (by simp))
    all_goals rfl

theorem rawget_others (entries : Entries) (key other : Key) (different : other ≠ key) :
    rawget (entries.filter fun entry => entry.1 ≠ key) other = rawget entries other := by
  induction entries with
  | nil => rfl
  | cons entry entries ih =>
    by_cases dropped : entry.1 = key
    · rw [List.filter_cons_of_neg (by simp [dropped]), ih, rawget, if_neg]
      rw [dropped]
      exact different.symm
    · rw [List.filter_cons_of_pos (by simp [dropped]), rawget, rawget, ih]

theorem rawget_rawset (entries : Entries) (key other : Key) (value : Value) :
    rawget (rawset entries key value) other = if other = key then value else rawget entries other := by
  rw [rawset, rawget_append]
  · split_ifs with same
    · rfl
    · exact rawget_others entries key other same
  · intro entry inside
    simpa using (List.mem_filter.mp inside).2

theorem rawget_join (first second : Entries) (key : Key) :
    rawget (first ++ second) key =
      if key ∈ first.keys then rawget first key else rawget second key := by
  induction first with
  | nil => simp [Entries.keys]
  | cons entry first ih =>
    rw [List.cons_append, rawget, rawget, ih]
    by_cases here : entry.1 = key
    · simp [Entries.keys, here]
    · have other : (key ∈ Entries.keys (entry :: first)) ↔ key ∈ Entries.keys first := by
        rw [Entries.keys, List.map_cons, List.mem_cons, or_iff_right (Ne.symm here)]
        rfl
      simp only [here, other, if_false]

theorem rawget_foldl (pairs entries : Entries) (key : Key) :
    rawget (pairs.foldl (fun entries pair => rawset entries pair.1 pair.2) entries) key =
      rawget (pairs.reverse ++ entries) key := by
  induction pairs generalizing entries with
  | nil => rfl
  | cons pair pairs ih =>
    rw [List.foldl_cons, ih, List.reverse_cons, List.append_assoc, rawget_join, rawget_join]
    split_ifs with later
    · rfl
    · rw [rawget_rawset, List.singleton_append, rawget]
      simp only [eq_comm]

def defaultCap : Nat := 64

def bsonReal : UInt8 := 1
def bsonString : UInt8 := 2
def bsonDocument : UInt8 := 3
def bsonArray : UInt8 := 4
def bsonBinary : UInt8 := 5
def bsonObjectid : UInt8 := 7
def bsonBoolean : UInt8 := 8
def bsonDate : UInt8 := 9
def bsonNull : UInt8 := 10
def bsonRegex : UInt8 := 11
def bsonDbpointer : UInt8 := 12
def bsonJscode : UInt8 := 13
def bsonSymbol : UInt8 := 14
def bsonCodews : UInt8 := 15
def bsonInt32 : UInt8 := 16
def bsonTimestamp : UInt8 := 17
def bsonInt64 : UInt8 := 18
def bsonMinkey : UInt8 := 255
def bsonMaxkey : UInt8 := 127

-- `outside` is an access outside the memory, `overflow` an overflow of a signed integer, `endless`
-- a loop that has not come to its end, and `stack` a slot of Lua's stack that nobody asked for.
inductive Fault where
  | error (message : String)
  | overflow
  | outside
  | endless
  | stack
  deriving DecidableEq, Repr

-- The bytes that have been written, of `cap`.
structure Bson where
  ptr : List UInt8
  cap : Nat
  deriving DecidableEq, Repr

def Bson.size (b : Bson) : Nat := b.ptr.length

def bsonCreate : Bson := ⟨[], defaultCap⟩

def doubleCap (need : Int) (cap : Nat) : Except Fault Nat :=
  if 2 ^ 30 ≤ cap then .error .overflow
  else if cap = 0 then .error .endless
  else if ((cap * 2 : Nat) : Int) ≤ need then doubleCap need (cap * 2)
  else .ok (cap * 2)
  termination_by 2 ^ 30 - cap

def bsonReserve (b : Bson) (sz : Int) : Except Fault Bson :=
  match CInt.arith (b.size + sz) with
  | none => .error .overflow
  | some need =>
      if need ≤ b.cap then .ok b
      else (doubleCap need b.cap).map fun cap => { b with cap }

def Bson.store (b : Bson) (bytes : List UInt8) : Except Fault Bson :=
  if b.size + bytes.length ≤ b.cap then .ok { b with ptr := b.ptr ++ bytes } else .error .outside

def writeByte (b : Bson) (v : UInt8) : Except Fault Bson :=
  bsonReserve b 1 >>= fun b => b.store [v]

def writeInt32 (b : Bson) (v : UInt32) : Except Fault Bson :=
  bsonReserve b 4 >>= fun b => b.store (LittleEndian.bytes 4 v.toNat)

def writeLength (b : Bson) (v : UInt32) (off : Nat) : Bson :=
  { b with ptr := b.ptr.take off ++ LittleEndian.bytes 4 v.toNat ++ b.ptr.drop (off + 4) }

def writeString (b : Bson) (key : List UInt8) : Except Fault Bson :=
  bsonReserve b (CInt.toInt (key.length + 1)) >>= fun b => b.store (key ++ [0])

-- The four bytes have no value until `writeLength` gives them one.
def reserveLength (b : Bson) : Except Fault (Bson × Nat) :=
  bsonReserve b 4 >>= fun reserved => (reserved.store [0, 0, 0, 0]).map fun b' => (b', b.size)

def writeInt64 (b : Bson) (v : Int64) : Except Fault Bson :=
  bsonReserve b 8 >>= fun b => b.store (LittleEndian.bytes 8 v.toUInt64.toNat)

def writeDouble (b : Bson) (d : UInt64) : Except Fault Bson :=
  bsonReserve b 8 >>= fun b => b.store (LittleEndian.bytes 8 d.toNat)

def appendKey (bs : Bson) (type : UInt8) (key : List UInt8) : Except Fault Bson :=
  writeByte bs type >>= fun bs => writeString bs key

-- `int si = i >> 31` keeps the low half of the shifted number.
def fitsInt32 (i : Int64) : Bool :=
  let si := (i >>> 31).toInt32
  si = 0 ∨ si = -1

def appendInteger (bs : Bson) (key : List UInt8) (i : Int64) : Except Fault Bson :=
  if fitsInt32 i then
    appendKey bs bsonInt32 key >>= fun bs => writeInt32 bs i.toInt32.toUInt32
  else appendKey bs bsonInt64 key >>= fun bs => writeInt64 bs i

def appendReal (bs : Bson) (key : List UInt8) (d : UInt64) : Except Fault Bson :=
  appendKey bs bsonReal key >>= fun bs => writeDouble bs d

def appendBytes (bs : Bson) (bytes : List UInt8) : Except Fault Bson :=
  bsonReserve bs (CInt.toInt bytes.length) >>= fun bs => bs.store bytes

def writeBinary (b : Bson) (buffer : List UInt8) : Except Fault Bson :=
  reserveLength b >>= fun (b, length) =>
    (appendBytes b buffer).map fun b => writeLength b (UInt32.ofNat buffer.length - 1) length

def word (bytes : List UInt8) : UInt32 := UInt32.ofNat (LittleEndian.value (bytes.take 4))

def splitLast (bytes : List UInt8) : Option (List UInt8 × List UInt8) :=
  let behind := (bytes.reverse.takeWhile (· ≠ 0)).reverse
  if behind.length = bytes.length then none
  else some (bytes.take (bytes.length - behind.length - 1), behind)

-- The subtype is the second byte of the string; `str` is what follows it. A regex without a NUL
-- before its last byte takes a length below zero for a `size_t`.
def appendSubtype (bs : Bson) (subt : UInt8) (str : List UInt8) : Except Fault Bson :=
  if subt = bsonBinary then writeBinary bs str
  else if subt = bsonObjectid ∧ str.length ≠ 12 then
    .error (.error s!"Invalid object id {Lua.text (str.takeWhile (· ≠ 0))}")
  else if subt = bsonObjectid ∨ subt = bsonJscode ∨ subt = bsonDbpointer ∨ subt = bsonSymbol ∨
      subt = bsonCodews then
    appendBytes bs str
  else if subt = bsonDate then
    if str.length ≠ 4 then .error (.error "Invalid date")
    else writeInt64 bs (Int64.ofNat ((word str).toNat * 1000))
  else if subt = bsonTimestamp then
    if str.length ≠ 8 then .error (.error "Invalid timestamp")
    else writeInt32 bs (word str) >>= fun bs => writeInt32 bs (word (str.drop 4))
  else if subt = bsonRegex then
    match splitLast str.dropLast with
    | none => .error .outside
    | some (pattern, options) => writeString bs pattern >>= fun bs => writeString bs options
  else if subt = bsonMinkey ∨ subt = bsonMaxkey ∨ subt = bsonNull then .ok bs
  else .error (.error s!"Invalid subtype {subt}")

def appendText (bs : Bson) (key str : List UInt8) : Except Fault Bson :=
  appendKey bs bsonString key >>= fun bs =>
    reserveLength bs >>= fun (bs, off) =>
      (writeString bs str).map fun bs => writeLength bs (UInt32.ofNat (str.length + 1)) off

def appendString (bs : Bson) (key : List UInt8) : List UInt8 → Except Fault Bson
  | 0 :: subt :: str => appendKey bs subt key >>= fun bs => appendSubtype bs subt str
  | str => appendText bs key str

def appendUserdata (bs : Bson) (key doc : List UInt8) : Except Fault Bson :=
  appendKey bs bsonDocument key >>= fun bs =>
    let sz := (word doc).toInt32.toInt
    if doc.length < 4 then .error .outside
    else
      bsonReserve bs sz >>= fun bs =>
        if sz < 0 ∨ doc.length < sz then .error .outside else bs.store (doc.take sz.toNat)

def luaNext : Entries → Key → Except Fault (Option (Key × Value))
  | [], _ => .error (.error "invalid key to 'next'")
  | (found, _) :: entries, key => if found = key then .ok entries.head? else luaNext entries key

-- Whether the border that `lua_rawlen` reports is the last key of `lua_next`.
def isArray (rawlen : Nat) (entries : Entries) : Except Fault Bool :=
  if 0 < rawlen then (luaNext entries (.integer (Int64.ofNat rawlen))).map (·.isNone)
  else .ok false

-- `printf` of a number with `%u`, and of a key with `lua_tolstring`
def bsonNumstr (i : Nat) : List UInt8 := (Nat.toDigits 10 i).map fun c => UInt8.ofNat c.toNat

def integerText (i : Int64) : List UInt8 :=
  if i.toInt < 0 then 45 :: bsonNumstr i.toInt.natAbs else bsonNumstr i.toInt.natAbs

section

variable (number2str : UInt64 → List UInt8)

def elementKey (array : Bool) (key : Key) : Except Fault (List UInt8) :=
  match key, array with
  | .integer i, true => .ok (bsonNumstr (i.toInt32.toUInt32 - 1).toNat)
  | .number bits, true =>
      .ok (bsonNumstr (((Lua.numisinteger bits).getD 0).toInt32.toUInt32 - 1).toNat)
  | .integer i, false => .ok (integerText i)
  | .number bits, false => .ok (number2str bits)
  | .string key, false => .ok key
  | key, true => .error (.error s!"Invalid array key type : {key.typename}")
  | key, false => .error (.error s!"Invalid key type : {key.typename}")

def packDict (pack : Bson → Except Fault Bson) (b : Bson) : Except Fault Bson :=
  reserveLength b >>= fun (b, length) =>
    (pack b >>= fun b => writeByte b 0).map fun b =>
      writeLength b (UInt32.ofNat (b.size - length)) length

def appendTable (pack : Bool → Bson → Except Fault Bson) (bs : Bson) (key : List UInt8)
    (rawlen : Nat) (entries : Entries) : Except Fault Bson :=
  isArray rawlen entries >>= fun array =>
    appendKey bs (if array then bsonArray else bsonDocument) key >>= fun bs =>
      packDict (pack array) bs

mutual

def appendOne (bs : Bson) (key : List UInt8) : Value → Except Fault Bson
  | .integer i => appendInteger bs key i
  | .number d => appendReal bs key d
  | .userdata doc => appendUserdata bs key doc
  | .string str => appendString bs key str
  | .table rawlen entries =>
      appendTable (fun array bs => packEntries array bs entries) bs key rawlen entries
  | .boolean v =>
      appendKey bs bsonBoolean key >>= fun bs => writeByte bs (if v then 1 else 0)
  | .nil => .error (.error "Invalid value type : nil")
  | .other typename => .error (.error s!"Invalid value type : {typename}")

def packEntries (array : Bool) (b : Bson) : Entries → Except Fault Bson
  | [] => .ok b
  | (key, value) :: entries =>
      elementKey number2str array key >>= fun key =>
        appendOne b key value >>= fun b => packEntries array b entries

end

def lencode (entries : Entries) : Except Fault (List UInt8) :=
  (packDict (fun b => packEntries number2str false b entries) bsonCreate).map (·.ptr)

-- The number of a key is copied before it becomes a text.
def keySlots (array : Bool) : Key → Nat
  | .integer _ | .number _ => if array then 1 else 2
  | _ => 1

-- What `append_one` takes of Lua's stack above its value: the key and the value of an entry at each
-- level, which is no less than `append_table` takes to look for a border.
mutual

def packSlots : Value → Nat
  | .table rawlen entries =>
      match isArray rawlen entries with
      | .ok array => entriesSlots array entries
      | .error _ => 1
  | _ => 0

def entriesSlots (array : Bool) : Entries → Nat
  | [] => 1
  | (key, value) :: entries =>
      max (keySlots array key + 1 + packSlots value) (entriesSlots array entries)

end

-- `encode`: what `lencode` writes if the slots suffice that Lua keeps free for a C function, since
-- none of its functions asks for more.
def encode (entries : Entries) : Except Fault (List UInt8) :=
  lencode number2str entries >>= Slots.within .stack Lua.minStack (entriesSlots false entries)

end

def null : List UInt8 := [0, bsonNull]

def minkey : List UInt8 := [0, bsonMinkey]

def maxkey : List UInt8 := [0, bsonMaxkey]

def ldate (d : Int64) : List UInt8 :=
  0 :: bsonDate :: LittleEndian.bytes 4 d.toInt32.toUInt32.toNat

def ltimestamp (d : Int64) (inc : UInt32) : List UInt8 :=
  0 :: bsonTimestamp ::
    (LittleEndian.bytes 4 inc.toNat ++ LittleEndian.bytes 4 d.toInt32.toUInt32.toNat)

def lregex (pattern options : List UInt8) : List UInt8 :=
  0 :: bsonRegex :: (pattern ++ [0] ++ options ++ [0])

def lbinary (bytes : List UInt8) : List UInt8 := 0 :: bsonBinary :: 0 :: bytes

def hextoint (c : UInt8) : UInt8 :=
  if 48 ≤ c ∧ c ≤ 57 then c - 48
  else if 97 ≤ c ∧ c ≤ 122 then c - 97 + 10
  else if 65 ≤ c ∧ c ≤ 90 then c - 65 + 10
  else 0

def fromHex : List UInt8 → List UInt8
  | high :: low :: str => (hextoint high <<< 4 ||| hextoint low) :: fromHex str
  | _ => []

def lobjectid (str : List UInt8) : Except Fault (List UInt8) :=
  if str.length ≠ 24 then
    .error (.error s!"Invalid objectid {Lua.text (str.takeWhile (· ≠ 0))}")
  else .ok (0 :: bsonObjectid :: fromHex str)

end Pskynet.Bson
