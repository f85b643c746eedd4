import Pskynet.Bson.Encode
import Pskynet.Shared.Outcome

set_option autoImplicit false

namespace Pskynet.Bson

open LittleEndian Slots

-- `ptr` counts from the first byte of the document; a reader may leave the document behind.
structure Reader where
  ptr : Int
  size : Int
  deriving DecidableEq, Repr

def int (n : Int) : Except Fault Int :=
  match CInt.arith n with
  | none => .error .overflow
  | some n => .ok n

section

variable (data : List UInt8)

def byteAt (ptr : Int) : Except Fault UInt8 :=
  if ptr < 0 then .error .outside
  else
    match data[ptr.toNat]? with
    | none => .error .outside
    | some byte => .ok byte

def bytesAt (ptr : Int) (n : Nat) : Except Fault (List UInt8) :=
  if n = 0 then .ok []
  else if 0 ≤ ptr ∧ ptr + n ≤ data.length then .ok ((data.drop ptr.toNat).take n)
  else .error .outside

def checkReader (br : Reader) (sz : Int) : Except Fault Unit :=
  if br.size < sz then .error (.error s!"Invalid bson block ({br.size}:{sz})") else .ok ()

def Reader.advance (br : Reader) (n : Nat) : Reader := ⟨br.ptr + n, br.size - n⟩

def readByte (br : Reader) : Except Fault (UInt8 × Reader) :=
  checkReader br 1 >>= fun _ => (byteAt data br.ptr).map fun r => (r, br.advance 1)

def readNumber (n : Nat) (br : Reader) : Except Fault (Nat × Reader) :=
  checkReader br n >>= fun _ =>
    (bytesAt data br.ptr n).map fun bytes => (LittleEndian.value bytes, br.advance n)

def readInt32 (br : Reader) : Except Fault (Int × Reader) :=
  (readNumber data 4 br).map fun (v, br) => (CInt.toInt v, br)

def readInt64 (br : Reader) : Except Fault (Int64 × Reader) :=
  (readNumber data 8 br).map fun (v, br) => (Int64.ofNat v, br)

def readDouble (br : Reader) : Except Fault (UInt64 × Reader) :=
  (readNumber data 8 br).map fun (v, br) => (UInt64.ofNat v, br)

def readBytes (br : Reader) (sz : Int) : Except Fault (Int × Reader) :=
  checkReader br sz >>= fun _ => (int (br.size - sz)).map fun size => (br.ptr, ⟨br.ptr + sz, size⟩)

def cstring : Int → List UInt8 → Except Fault (List UInt8)
  | size, [] => .error (if size = 0 then .error "Invalid bson block : cstring" else .outside)
  | size, byte :: rest =>
      if size = 0 then .error (.error "Invalid bson block : cstring")
      else if byte = 0 then .ok []
      else (cstring (size - 1) rest).map (byte :: ·)

def readCstring (br : Reader) : Except Fault (List UInt8 × Reader) :=
  if br.ptr < 0 ∧ br.size ≠ 0 then .error .outside
  else
    (cstring br.size (data.drop br.ptr.toNat)).map fun text =>
      (text, br.advance (text.length + 1))

-- `luaL_addlstring` behind `held` bytes: a negative length is a `size_t` that no buffer has.
def addlstring (held : Nat) (ptr l : Int) : Except Fault (List UInt8) :=
  if l < 0 then
    .error (.error (if -l ≤ held then "buffer too large"
      else "memory allocation error: block too big"))
  else bytesAt data ptr l.toNat

def makeObject (type : UInt8) (ptr len : Int) : Except Fault Value :=
  (addlstring data 2 ptr len).map fun bytes => .string (0 :: type :: bytes)

def isspace (c : UInt8) : Bool := c = 32 ∨ 9 ≤ c ∧ c ≤ 13

def digitsValue (text : List UInt8) : Nat :=
  (text.takeWhile fun c => 48 ≤ c ∧ c ≤ 57).foldl (fun n c => 10 * n + (c.toNat - 48)) 0

-- `strtol(text, NULL, 10)` with a `long` of 64 bits
def strtol (text : List UInt8) : Int :=
  match text.dropWhile isspace with
  | 45 :: text => max (-2 ^ 63) (-(digitsValue text : Int))
  | 43 :: text => min (2 ^ 63 - 1) (digitsValue text)
  | text => min (2 ^ 63 - 1) (digitsValue text)

-- `int id = strtol(key, NULL, 10) + 1` in an array
def fieldKey (array : Bool) (key : List UInt8) : Except Fault Key :=
  if array then
    if strtol key = 2 ^ 63 - 1 then .error .overflow
    else .ok (.integer (Int64.ofInt (CInt.toInt (strtol key + 1))))
  else .ok (.string key)

def readString (t : Reader) : Except Fault (Value × Reader) :=
  readInt32 data t >>= fun (sz, t) =>
    if sz ≤ 0 then .error (.error s!"Invalid bson string , length = {sz}")
    else
      readBytes t sz >>= fun (ptr, t) =>
        (bytesAt data ptr (sz - 1).toNat).map fun bytes => (.string bytes, t)

def readBinary (t : Reader) : Except Fault (Value × Reader) :=
  readInt32 data t >>= fun (sz, t) =>
    readByte data t >>= fun (subtype, t) =>
      readBytes t sz >>= fun (ptr, t) =>
        (addlstring data 3 ptr sz).map fun bytes =>
          (.string (0 :: bsonBinary :: subtype :: bytes), t)

def readObjectid (t : Reader) : Except Fault (Value × Reader) :=
  readBytes t 12 >>= fun (ptr, t) =>
    (makeObject data bsonObjectid ptr 12).map fun value => (value, t)

def readDate (t : Reader) : Except Fault (Value × Reader) :=
  (readInt64 data t).map fun (date, t) =>
    let v : UInt32 := (date / 1000).toInt32.toUInt32
    (.string (0 :: bsonDate :: LittleEndian.bytes 4 v.toNat), t)

def readRegex (t : Reader) : Except Fault (Value × Reader) :=
  readCstring data t >>= fun (r1, t) =>
    (readCstring data t).map fun (r2, t) =>
      (.string (0 :: bsonRegex :: (r1 ++ [0] ++ r2 ++ [0])), t)

def readTimestamp (t : Reader) : Except Fault (Value × Reader) :=
  readNumber data 4 t >>= fun (inc, t) =>
    (readNumber data 4 t).map fun (ts, t) =>
      (.string (0 :: bsonTimestamp :: (LittleEndian.bytes 4 inc ++ LittleEndian.bytes 4 ts)), t)

-- A length, then `sz + skipped` bytes, which are kept together with the length: `sz + kept` bytes.
def readRaw (type : UInt8) (skipped kept : Int) (t : Reader) : Except Fault (Value × Reader) :=
  readInt32 data t >>= fun (sz, rest) =>
    int (sz + skipped) >>= fun n =>
      readBytes rest n >>= fun (_, rest) =>
        int (sz + kept) >>= fun len =>
          (makeObject data type t.ptr len).map fun value => (value, rest)

def unpackValue (nested : Bool → Reader → Except Fault (Value × Reader)) (t : Reader)
    (bt : UInt8) : Except Fault (Value × Reader) :=
  if bt = bsonReal then (readDouble data t).map fun (d, t) => (.number d, t)
  else if bt = bsonBoolean then (readByte data t).map fun (b, t) => (.boolean (b ≠ 0), t)
  else if bt = bsonString then readString data t
  else if bt = bsonDocument then nested false t
  else if bt = bsonArray then nested true t
  else if bt = bsonBinary then readBinary data t
  else if bt = bsonObjectid then readObjectid data t
  else if bt = bsonDate then readDate data t
  else if bt = bsonMinkey ∨ bt = bsonMaxkey ∨ bt = bsonNull then .ok (.string [0, bt], t)
  else if bt = bsonRegex then readRegex data t
  else if bt = bsonInt32 then (readInt32 data t).map fun (i, t) => (.integer (Int64.ofInt i), t)
  else if bt = bsonTimestamp then readTimestamp data t
  else if bt = bsonInt64 then (readInt64 data t).map fun (i, t) => (.integer i, t)
  else if bt = bsonDbpointer then readRaw data bsonDbpointer 12 16 t
  else if bt = bsonJscode ∨ bt = bsonSymbol then readRaw data bt 0 4 t
  else if bt = bsonCodews then readRaw data bsonCodews (-4) 0 t
  else .error (.error s!"Invalid bson type : {bt}")

def bufferSize : Nat := 8192

-- A longer object is put together in a userdata on the stack before it is pushed.
def pushSlots (bt : UInt8) : Value → Nat
  | .string bytes => if bt ≠ bsonString ∧ bufferSize < bytes.length then 2 else 1
  | _ => 1

def pushValue (nested : Nat → Bool → Reader → Except Fault (Value × Reader)) (room : Nat)
    (t : Reader) (bt : UInt8) : Except Fault (Value × Reader) :=
  unpackValue data (nested room) t bt >>= fun (value, t) =>
    within .stack room (pushSlots bt value) (value, t)

-- One turn of the loop of `unpack_dict`, where `room` slots are free above the table
def unpackField (nested : Nat → Bool → Reader → Except Fault (Value × Reader)) (room : Nat)
    (array : Bool) (t : Reader) : Except Fault ((Key × Value) × Reader) :=
  readByte data t >>= fun (bt, t) =>
    readCstring data t >>= fun (key, t) =>
      fieldKey array key >>= fun key =>
        claim .stack room 1 >>= fun room =>
          (pushValue data nested room t bt).map fun (value, t) => ((key, value), t)

def unpackFields (nested : Nat → Bool → Reader → Except Fault (Value × Reader)) (room : Nat)
    (array : Bool) : Nat → Reader → Entries → Except Fault Entries
  | 0, _, _ => .error .endless
  | turns + 1, t, entries =>
      if t.size = 0 then .ok entries
      else
        unpackField data nested room array t >>= fun ((key, value), t) =>
          unpackFields nested room array turns t (rawset entries key value)

variable (border : Entries → Nat)

def unpackDict : Nat → Nat → Bool → Reader → Except Fault (Value × Reader)
  | 0, _, _, _ => .error .endless
  | turns + 1, room, array, br =>
      readInt32 data br >>= fun (sz, br) =>
        int (sz - 5) >>= fun size =>
          readBytes br size >>= fun (bytes, br) =>
            readByte data br >>= fun (last, br) =>
              if last ≠ 0 then .error (.error "Invalid document end")
              else
                claim .stack room 1 >>= fun room =>
                  (unpackFields data (unpackDict turns) room array turns ⟨bytes, size⟩ []).map
                    fun entries => (.table (border entries) entries, br)

def getLength : Except Fault Int :=
  (bytesAt data 0 4).map fun bytes => CInt.toInt (LittleEndian.value bytes)

-- With `room` free slots, at most `turns` levels, and as many elements in each document
def ldecode (room turns : Nat) : Except Fault Value :=
  getLength data >>= fun len => (unpackDict data border turns room false ⟨0, len⟩).map (·.1)

-- The bytes of a value that `replace` can overwrite.
def fieldSize (bt : UInt8) : Nat :=
  if bt = bsonInt64 ∨ bt = bsonTimestamp ∨ bt = bsonDate ∨ bt = bsonReal then 8
  else if bt = bsonBoolean then 1
  else if bt = bsonObjectid then 12
  else if bt = bsonInt32 then 4
  else 0

def skipBytes (br : Reader) (more : Int) : Except Fault Reader :=
  readInt32 data br >>= fun (sz, br) =>
    int (sz + more) >>= fun n => (readBytes br n).map (·.2)

-- The switch of `lmakeindex`: what it skips of the value itself
def skipValue (br : Reader) (bt : UInt8) : Except Fault Reader :=
  if fieldSize bt ≠ 0 then .ok br
  else if bt = bsonJscode ∨ bt = bsonSymbol ∨ bt = bsonString then skipBytes data br 0
  else if bt = bsonCodews ∨ bt = bsonArray ∨ bt = bsonDocument then skipBytes data br (-4)
  else if bt = bsonBinary then skipBytes data br 1
  else if bt = bsonMinkey ∨ bt = bsonMaxkey ∨ bt = bsonNull then .ok br
  else if bt = bsonRegex then
    readCstring data br >>= fun (_, br) => (readCstring data br).map (·.2)
  else if bt = bsonDbpointer then skipBytes data br 12
  else .error (.error s!"Invalid bson type : {bt}")

def indexId (bt : UInt8) (ptr : Int) : Except Fault Int64 :=
  int (ptr * 32) >>= fun shifted => .ok (Int64.ofNat (bt.toNat ||| shifted.toNat))

-- One turn of the loop of `lmakeindex`: what it adds to the index
def indexField (br : Reader) : Except Fault (Option (List UInt8 × Int64) × Reader) :=
  readByte data br >>= fun (bt, br) =>
    readCstring data br >>= fun (key, br) =>
      skipValue data br bt >>= fun br =>
        if fieldSize bt = 0 then .ok (none, br)
        else
          indexId bt br.ptr >>= fun id =>
            (readBytes br (fieldSize bt)).map fun (_, br) => (some (key, id), br)

def addIndex (index : Entries) : Option (List UInt8 × Int64) → Entries
  | none => index
  | some (key, id) => rawset index (.string key) (.integer id)

def makeindexLoop : Nat → Reader → Entries → Except Fault Entries
  | 0, _, _ => .error .endless
  | turns + 1, br, index =>
      if br.size = 0 then .ok index
      else
        indexField data br >>= fun (added, br) => makeindexLoop turns br (addIndex index added)

def lmakeindex (turns : Nat) : Except Fault Entries :=
  getLength data >>= fun len => int (len - 5) >>= fun size => makeindexLoop data turns ⟨4, size⟩ []

end

inductive Item where
  | leaf (type : UInt8) (payload : List UInt8)
  | table (array : Bool) (fields : List (List UInt8 × Item))
  deriving Repr

abbrev Fields := List (List UInt8 × Item)

def Item.type : Item → UInt8
  | .leaf type _ => type
  | .table array _ => if array then bsonArray else bsonDocument

def enclosed (body : List UInt8) : List UInt8 := bytes 4 (body.length + 5) ++ (body ++ [0])

mutual

def Item.bytes : Item → List UInt8
  | .leaf _ payload => payload
  | .table _ fields => enclosed (fieldsBytes fields)

def fieldsBytes : Fields → List UInt8
  | [] => []
  | (key, item) :: fields => item.type :: (key ++ [0]) ++ item.bytes ++ fieldsBytes fields

end

def fieldBytes (key : List UInt8) (item : Item) : List UInt8 :=
  item.type :: (key ++ [0]) ++ item.bytes

theorem fieldsBytes_cons (key : List UInt8) (item : Item) (fields : Fields) :
    fieldsBytes ((key, item) :: fields) = fieldBytes key item ++ fieldsBytes fields := by
  rw [fieldsBytes, fieldBytes]

@[elab_as_elim]
theorem Item.induct {P : Item → Prop} (leaf : ∀ type payload, P (.leaf type payload))
    (table : ∀ array fields, (∀ field ∈ fields, P field.2) → P (.table array fields))
    (item : Item) : P item :=
  Item.rec (motive_1 := P) (motive_2 := fun fields => ∀ field ∈ fields, P field.2)
    (motive_3 := fun field => P field.2) leaf table (by simp)
    (fun _ _ head tail => List.forall_mem_cons.mpr ⟨head, tail⟩) (fun _ _ item => item) item

-- The length of the string that an object of these bytes is read as
def objectLength (type : UInt8) (payload : List UInt8) : Nat :=
  if type = bsonBinary then payload.length - 2 else payload.length + 2

-- The slots that `unpack_dict` takes to push a value.
mutual

def Item.slots : Item → Nat
  | .leaf type payload =>
      if type ≠ bsonString ∧ bufferSize < objectLength type payload then 2 else 1
  | .table _ fields => 1 + fieldsSlots fields

def fieldsSlots : Fields → Nat
  | [] => 0
  | (_, item) :: fields => max (1 + item.slots) (fieldsSlots fields)

end

def integerItem (i : Int64) : Item :=
  if fitsInt32 i then .leaf bsonInt32 (bytes 4 i.toInt32.toUInt32.toNat)
  else .leaf bsonInt64 (bytes 8 i.toUInt64.toNat)

def subtypeBytes (subt : UInt8) (str : List UInt8) : Option (List UInt8) :=
  if subt = bsonBinary then some (bytes 4 (UInt32.ofNat str.length - 1).toNat ++ str)
  else if subt = bsonObjectid ∧ str.length ≠ 12 then none
  else if subt = bsonObjectid ∨ subt = bsonJscode ∨ subt = bsonDbpointer ∨ subt = bsonSymbol ∨
      subt = bsonCodews then
    some str
  else if subt = bsonDate then
    if str.length ≠ 4 then none
    else some (bytes 8 (Int64.ofNat ((word str).toNat * 1000)).toUInt64.toNat)
  else if subt = bsonTimestamp then
    if str.length ≠ 8 then none
    else some (bytes 4 (word str).toNat ++ bytes 4 (word (str.drop 4)).toNat)
  else if subt = bsonRegex then
    (splitLast str.dropLast).map fun (pattern, options) =>
      (pattern ++ [0]) ++ (options ++ [0])
  else if subt = bsonMinkey ∨ subt = bsonMaxkey ∨ subt = bsonNull then some []
  else none

def textBytes (str : List UInt8) : List UInt8 := bytes 4 (str.length + 1) ++ (str ++ [0])

def stringItem : List UInt8 → Option Item
  | 0 :: subt :: str => (subtypeBytes subt str).map (.leaf subt)
  | str => some (.leaf bsonString (textBytes str))

def userdataItem (doc : List UInt8) : Option Item :=
  let sz := (word doc).toInt32.toInt
  if doc.length < 4 ∨ sz < 0 ∨ doc.length < sz then none
  else some (.leaf bsonDocument (doc.take sz.toNat))

section

variable (number2str : UInt64 → List UInt8)

mutual

def itemOf : Value → Option Item
  | .integer i => some (integerItem i)
  | .number d => some (.leaf bsonReal (bytes 8 d.toNat))
  | .userdata doc => userdataItem doc
  | .string str => stringItem str
  | .table rawlen entries =>
      match isArray rawlen entries with
      | .error _ => none
      | .ok array => (fieldsOf array entries).map (.table array)
  | .boolean v => some (.leaf bsonBoolean [if v then 1 else 0])
  | .nil | .other _ => none

def fieldsOf (array : Bool) : Entries → Option Fields
  | [] => some []
  | (key, value) :: entries =>
      match elementKey number2str array key with
      | .error _ => none
      | .ok key =>
          match itemOf value with
          | none => none
          | some item => (fieldsOf array entries).map ((key, item) :: ·)

end

end

end Pskynet.Bson
