import Pskynet.Lua.Value
import Pskynet.Shared.LittleEndian
import Pskynet.Shared.Memory
import Pskynet.Shared.Slots
import Pskynet.Sproto.Pack
import Pskynet.Sproto.Schema

set_option autoImplicit false

namespace Pskynet.Sproto

open Lua Memory Slots

def sizeofLength : Nat := 4
def sizeofHeader : Nat := 2
def sizeofField : Nat := 2
def encodeDeeplevel : Nat := 64

-- What `luaL_checkstack` gets for `encode`, above the two arguments
def reservedSlots : Nat := encodeDeeplevel * 2 + 8

-- Why an encoder ends early: it returns -1, Lua raises an error, a size is too large for an `int`,
-- a slot of Lua's stack is used that nobody asked for, or a loop of the model is out of turns.
inductive Stop where
  | full
  | error (text : String)
  | overflow
  | stack
  | turns
  deriving DecidableEq, Repr

def lessSize (size : Int) (n : Nat) : Bool := size % 2 ^ 64 < n

-- What the callback leaves at `args->value`; its size is 4, 8 or the length of the bytes.
inductive Item where
  | word (v : UInt32)
  | qword (v : UInt64)
  | bytes (b : List UInt8)
  deriving DecidableEq, Repr

-- `array` is the table at `array_index`, and `iter` counts the pairs that `lua_next` has given.
-- `room` slots are free above what this level keeps on the stack.
structure EncodeUd where
  table : Entries
  arrayTag : Option Nat
  array : Option Entries
  iter : Nat
  room : Nat
  outermost : Bool

def newEncodeUd (table : Entries) (room : Nat) (outermost : Bool) : EncodeUd :=
  { table := table
    arrayTag := none
    array := none
    iter := 0
    room := room
    outermost := outermost }

-- `sproto_encode` for a struct: the number of its type, what its callback works on, and the size
-- of the buffer.
abbrev EncodeStruct := Nat → EncodeUd → Int → Except Stop (List UInt8 × EncodeUd)

-- The names of two fields are different pointers, so that their tags tell them apart. What
-- `lua_getfield` pushes goes to the slot of the array before it; without one it stays where it is,
-- also a nil.
def selectArray (ud : EncodeUd) (field : Field) (index : Nat) : Except Stop EncodeUd :=
  if ud.arrayTag = some field.tag then pure ud
  else do
    let left ← claim .stack ud.room 1
    let room := if ud.array.isSome then ud.room else left
    match rawget ud.table (.string field.name) with
    | .scalar .nil => pure { ud with arrayTag := some field.tag, array := none, room := room }
    | .table _ entries =>
        pure { ud with arrayTag := some field.tag, array := some entries, room := room }
    | value =>
        .error (.error (".*" ++ text field.name ++ "(" ++ toString index ++
          ") should be a table (Is a " ++ value.typename ++ ")"))

-- The value on the stack when `encode` looks at its type; nil where it returns 0. `lua_next` leaves
-- the key below the value.
def fetch (ud : EncodeUd) (field : Field) (index : Nat) : Except Stop (LuaValue × EncodeUd) :=
  if index > 0 then do
    let ud ← selectArray ud field index
    match ud.array with
    | none => pure (nil, ud)
    | some entries =>
        if field.key.isSome then
          match entries[ud.iter]? with
          | none => within .stack ud.room 1 (nil, { ud with iter := 0 })
          | some (_, value) => within .stack ud.room 2 (value, { ud with iter := ud.iter + 1 })
        else within .stack ud.room 1 (rawgeti entries index, ud)
  else within .stack ud.room 1 (rawget ud.table (.string field.name), ud)

def wrongType {α : Type} (field : Field) (index : Nat) (what : String) (value : LuaValue) :
    Except Stop α :=
  .error (.error ("." ++ text field.name ++ "[" ++ toString index ++ "] is not " ++ what ++
    " (Is a " ++ value.typename ++ ")"))

-- A string that is too long stays on the stack, and the outermost call pushes a larger buffer.
def noSpace (ud : EncodeUd) : Stop := if ud.outermost ∧ ud.room < 2 then .stack else .full

-- `number` is what `lua_tolstring` makes of a number. A struct keeps its table and its iterator on
-- the stack.
def encodeItem (number : Scalar → List UInt8) (struct : EncodeStruct) (field : Field)
    (ud : EncodeUd) (index : Nat) (length : Int) (value : LuaValue) : Except Stop Item :=
  match field.type with
  | .integer =>
      match value with
      | .scalar (.integer v) =>
          let vh := v >>> 31
          if vh = 0 ∨ vh = -1 then pure (.word v.toUInt64.toUInt32) else pure (.qword v.toUInt64)
      | value => wrongType field index "an integer" value
  | .boolean =>
      match value with
      | .scalar (.boolean v) => pure (.word (if v then 1 else 0))
      | value => wrongType field index "a boolean" value
  | .string =>
      let string (str : List UInt8) : Except Stop Item :=
        if (str.length : Int) > length then .error (noSpace ud) else pure (.bytes str)
      match value with
      | .scalar (.string str) => string str
      | .scalar (.integer v) => string (number (.integer v))
      | .scalar (.number v) => string (number (.number v))
      | value => wrongType field index "a string" value
  | .struct =>
      match value with
      | .table _ entries => do
          let room ← claim .stack (ud.room - 1) 1
          let (bytes, _) ← struct field.st (newEncodeUd entries room false) length
          pure (.bytes bytes)
      | value => wrongType field index "a table" value

-- The callback of `lencode`; without `struct` the table is at the deepest level.
def encode (number : Scalar → List UInt8) (struct : Option EncodeStruct) (field : Field)
    (ud : EncodeUd) (index : Nat) (length : Int) : Except Stop (Option Item × EncodeUd) :=
  match struct with
  | none => .error (.error "The table is too deep")
  | some struct => do
      let (value, ud) ← fetch ud field index
      if value.isNil then pure (none, ud)
      else do
        let item ← encodeItem number struct field ud index length value
        pure (some item, ud)

abbrev Callback := EncodeUd → Nat → Int → Except Stop (Option Item × EncodeUd)

def fillSize (data : List UInt8) : List UInt8 := LittleEndian.bytes sizeofLength data.length ++ data

def signBytes (negative : Bool) : List UInt8 :=
  if negative then [0xff, 0xff, 0xff, 0xff] else [0, 0, 0, 0]

-- The loop over `i` that moves the elements, the last one first.
def rearrangeLoop : Nat → List UInt8 → List UInt8
  | 0, buffer => buffer
  | i + 1, buffer =>
      let moved := memcpy buffer (i * 8) ((buffer.drop (i * 4)).take 4)
      let negative := moved.getD (i * 8 + 3) 0 &&& 0x80 ≠ 0
      rearrangeLoop i (memcpy moved (i * 8 + 4) (signBytes negative))

def rearrange (count : Nat) (buffer : List UInt8) : List UInt8 :=
  rearrangeLoop count (buffer ++ malloc (count * 4))

-- The elements behind the width byte. A size below zero passes the comparisons with
-- `sizeof(uint64_t)`; the elements are then written behind the end of the buffer.
def integerLoop (cb : Callback) : Nat → Nat → List UInt8 → Nat → Int → EncodeUd →
    Except Stop (Nat × List UInt8 × EncodeUd)
  | 0, _, _, _, _, _ => .error .turns
  | turns + 1, intlen, buffer, index, size, ud => do
      let (item, ud) ← cb ud index 8
      match item with
      | none => pure (intlen, buffer, ud)
      | some item =>
          if lessSize size 8 then .error .full
          else
            match item with
            | .word v =>
                let sign := if intlen = 8 then signBytes (v &&& 0x80000000 ≠ 0) else []
                integerLoop cb turns intlen (buffer ++ (LittleEndian.bytes 4 v.toNat ++ sign))
                  (index + 1) (size - intlen) ud
            | .qword v =>
                let v := LittleEndian.bytes 8 v.toNat
                if intlen = 4 then
                  let size := size - (index - 1 : Nat) * 4
                  if lessSize size 8 then .error .full
                  else integerLoop cb turns 8 (rearrange (index - 1) buffer ++ v) (index + 1) (size - 8) ud
                else integerLoop cb turns intlen (buffer ++ v) (index + 1) (size - intlen) ud
            | .bytes _ => .error .full

def encodeIntegerArray (cb : Callback) (turns : Nat) (ud : EncodeUd) (size : Int) :
    Except Stop (List UInt8 × EncodeUd) :=
  if size < 1 then .error .full
  else do
    let (intlen, buffer, ud) ← integerLoop cb turns 4 [] 1 (size - 1) ud
    pure (if buffer.isEmpty then [] else UInt8.ofNat intlen :: buffer, ud)

def booleanLoop (cb : Callback) : Nat → List UInt8 → Nat → Int → EncodeUd →
    Except Stop (List UInt8 × EncodeUd)
  | 0, _, _, _, _ => .error .turns
  | turns + 1, buffer, index, size, ud => do
      let (item, ud) ← cb ud index 4
      match item with
      | none => pure (buffer, ud)
      | some item =>
          if size < 1 then .error .full
          else
            let v : UInt32 :=
              match item with
              | .word v => v
              | _ => 0
            booleanLoop cb turns (buffer ++ [if v ≠ 0 then 1 else 0]) (index + 1) (size - 1) ud

def objectLoop (cb : Callback) : Nat → List UInt8 → Nat → Int → EncodeUd →
    Except Stop (List UInt8 × EncodeUd)
  | 0, _, _, _, _ => .error .turns
  | turns + 1, buffer, index, size, ud =>
      if size < sizeofLength then .error .full
      else do
        let size := size - sizeofLength
        let (item, ud) ← cb ud index size
        match item with
        | none => pure (buffer, ud)
        | some (.bytes b) =>
            objectLoop cb turns (buffer ++ fillSize b) (index + 1) (size - b.length) ud
        | some _ => .error .full

def arrayTurns (ud : EncodeUd) (field : Field) : Nat :=
  match rawget ud.table (.string field.name) with
  | .table _ entries => entries.length + 1
  | _ => 1

def encodeArray (cb : Callback) (field : Field) (ud : EncodeUd) (size : Int) :
    Except Stop (List UInt8 × EncodeUd) :=
  if size < sizeofLength then .error .full
  else do
    let size := size - sizeofLength
    let turns := arrayTurns ud field
    let (buffer, ud) ←
      match field.type with
      | .integer => encodeIntegerArray cb turns ud size
      | .boolean => booleanLoop cb turns [] 1 size ud
      | .string | .struct => objectLoop cb turns [] 1 size ud
    pure (if buffer.isEmpty then [] else fillSize buffer, ud)

def encodeObject (cb : Callback) (ud : EncodeUd) (size : Int) :
    Except Stop (List UInt8 × EncodeUd) :=
  if size < sizeofLength then .error .full
  else do
    let (item, ud) ← cb ud 0 (size - sizeofLength)
    match item with
    | none => pure ([], ud)
    | some (.bytes b) => pure (fillSize b, ud)
    | some _ => .error .full

def encodeInteger (v : UInt32) (size : Int) : Except Stop (List UInt8) :=
  if lessSize size 8 then .error .full else pure (fillSize (LittleEndian.bytes 4 v.toNat))

def encodeUint64 (v : UInt64) (size : Int) : Except Stop (List UInt8) :=
  if lessSize size 12 then .error .full else pure (fillSize (LittleEndian.bytes 8 v.toNat))

def encodeField (cb : Callback) (field : Field) (ud : EncodeUd) (size : Int) :
    Except Stop (Nat × List UInt8 × EncodeUd) :=
  if field.array then do
    let (data, ud) ← encodeArray cb field ud size
    pure (0, data, ud)
  else
    match field.type with
    | .integer | .boolean => do
        let (item, ud) ← cb ud 0 8
        match item with
        | none => pure (0, [], ud)
        | some (.word v) =>
            if v < 0x7fff then pure ((v.toNat + 1) * 2, [], ud)
            else do
              let data ← encodeInteger v size
              pure (0, data, ud)
        | some (.qword v) => do
            let data ← encodeUint64 v size
            pure (0, data, ud)
        | some (.bytes _) => .error .full
    | .string | .struct => do
        let (data, ud) ← encodeObject cb ud size
        pure (0, data, ud)

structure EncodeState where
  records : List Nat
  lasttag : Int
  data : List UInt8
  size : Int
  ud : EncodeUd

def encodeStep (number : Scalar → List UInt8) (struct : Option EncodeStruct) (state : EncodeState)
    (field : Field) : Except Stop EncodeState := do
  let (value, data, ud) ← encodeField (encode number struct field) field state.ud state.size
  if value = 0 ∧ data = [] then pure { state with ud := ud }
  else
    let tag := field.tag - state.lasttag - 1
    let skip := (tag - 1) * 2 + 1
    if tag > 0 ∧ skip > 0xffff then .error .full
    else
      pure
        { records := state.records ++ (if tag > 0 then [skip.toNat] else []) ++ [value]
          lasttag := field.tag
          data := state.data ++ data
          size := state.size - data.length
          ud := ud }

def encodeType (number : Scalar → List UInt8) (struct : Option EncodeStruct) (st : SprotoType)
    (ud : EncodeUd) (size : Int) : Except Stop (List UInt8 × EncodeUd) :=
  let headerSz := sizeofHeader + st.maxn * sizeofField
  if size < headerSz then .error .full
  else do
    let start : EncodeState :=
      { records := [], lasttag := -1, data := [], size := size - headerSz, ud := ud }
    let state ← st.f.foldlM (encodeStep number struct) start
    let bytes := LittleEndian.bytes 2 state.records.length ++
      (state.records.flatMap (LittleEndian.bytes 2) ++ state.data)
    if bytes.length < 2 ^ 31 then pure (bytes, state.ud) else .error .overflow

-- `levels` is `ENCODE_DEEPLEVEL - deep`.
def sprotoEncode (number : Scalar → List UInt8) (schema : Schema) : Nat → EncodeStruct
  | 0, type, ud, size => encodeType number none (schema type) ud size
  | levels + 1, type, ud, size =>
      encodeType number (some (sprotoEncode number schema levels)) (schema type) ud size

-- The iterator has the first of the slots, and the string of the result comes above what is left.
def lencodeLoop (number : Scalar → List UInt8) (schema : Schema) (type : Nat) (table : Entries) :
    Nat → Nat → Except Stop (List UInt8)
  | 0, _ => .error .turns
  | turns + 1, sz =>
      let self := newEncodeUd table (reservedSlots - 1) true
      match sprotoEncode number schema encodeDeeplevel type self sz with
      | .error .full =>
          if sz * 2 > encodeMaxsize then
            .error (.error ("object is too large (>" ++ toString encodeMaxsize ++ ")"))
          else lencodeLoop number schema type table turns (sz * 2)
      | .error stop => .error stop
      | .ok (bytes, self) => within .stack self.room 1 bytes

-- `sz` is the size of the buffer that the last call has left, at least `ENCODE_BUFFERSIZE`; it
-- is doubled at most 24 times.
def lencode (number : Scalar → List UInt8) (schema : Schema) (type : Nat) (table : Entries)
    (sz : Nat) : Except Stop (List UInt8) :=
  lencodeLoop number schema type table 25 sz

end Pskynet.Sproto
