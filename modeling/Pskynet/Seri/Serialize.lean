import Pskynet.Lua.Value
import Pskynet.Shared.LittleEndian
import Pskynet.Shared.Memory
import Pskynet.Shared.Slots

set_option autoImplicit false

namespace Pskynet.Seri

open Lua Memory Slots

def typeNil : Nat := 0
def typeBoolean : Nat := 1
def typeNumber : Nat := 2
def typeUserdata : Nat := 3
def typeShortString : Nat := 4
def typeLongString : Nat := 5
def typeTable : Nat := 6

def typeNumberZero : Nat := 0
def typeNumberByte : Nat := 1
def typeNumberWord : Nat := 2
def typeNumberDword : Nat := 4
def typeNumberQword : Nat := 6
def typeNumberReal : Nat := 8

def maxCookie : Nat := 32
def blockSize : Nat := 128
def maxDepth : Nat := 32

def combineType (type : Nat) (cookie : Int) : UInt8 :=
  UInt8.ofNat type ||| UInt8.ofInt cookie <<< 3

-- A `size_t` that is assigned to an `int`.
def toCInt (n : Nat) : Int := (Int32.ofNat n).toInt

-- An error of Lua; a signed `int` that overflows, where C promises nothing; a push without a free
-- slot on the stack, where Lua promises nothing.
inductive Fault where
  | error (text : String)
  | overflow
  | stack
  deriving DecidableEq, Repr

structure Block where
  buffer : List UInt8
  size : buffer.length = blockSize

def blkAlloc : Block := ⟨malloc blockSize, length_malloc blockSize⟩

-- `before` are the blocks from the head to the one before the current one.
structure WriteBlock where
  before : List Block
  current : Block
  len : Nat
  ptr : Nat
  ptr_le : ptr ≤ blockSize

def wbInit : WriteBlock :=
  { before := [], current := blkAlloc, len := 0, ptr := 0, ptr_le := Nat.zero_le _ }

def WriteBlock.next (wb : WriteBlock) : WriteBlock :=
  { wb with before := wb.before ++ [wb.current], current := blkAlloc, ptr := 0,
            ptr_le := Nat.zero_le _ }

def WriteBlock.copy (wb : WriteBlock) (buffer : List UInt8)
    (fits : wb.ptr + buffer.length ≤ blockSize) : Except Fault WriteBlock :=
  if wb.len + buffer.length < 2 ^ 31 then
    .ok
      { wb with
        current :=
          { buffer := memcpy wb.current.buffer wb.ptr buffer
            size := by rw [length_memcpy _ _ _ (by rw [wb.current.size]; exact fits), wb.current.size] }
        len := wb.len + buffer.length
        ptr := wb.ptr + buffer.length
        ptr_le := fits }
  else .error .overflow

def WriteBlock.room (wb : WriteBlock) : WriteBlock := if wb.ptr = blockSize then wb.next else wb

theorem WriteBlock.room_lt (wb : WriteBlock) : wb.room.ptr < blockSize := by
  have bound := wb.ptr_le
  unfold WriteBlock.room
  split_ifs with full
  · exact (by decide : 0 < blockSize)
  · omega

def wbPush (wb : WriteBlock) (buffer : List UInt8) : Except Fault WriteBlock :=
  if fits : wb.room.ptr + buffer.length ≤ blockSize then wb.room.copy buffer fits
  else
    let copy := blockSize - wb.room.ptr
    (wb.room.copy (buffer.take copy) (by have := wb.room.ptr_le; simp [copy]; omega)).bind
      fun filled => wbPush filled (buffer.drop copy)
termination_by buffer.length
decreasing_by
  have := wb.room_lt
  simp only [List.length_drop]
  omega

def wbNil (wb : WriteBlock) : Except Fault WriteBlock := wbPush wb [UInt8.ofNat typeNil]

def wbBoolean (wb : WriteBlock) (boolean : Bool) : Except Fault WriteBlock :=
  wbPush wb [combineType typeBoolean (if boolean then 1 else 0)]

def wbInteger (wb : WriteBlock) (v : Int64) : Except Fault WriteBlock :=
  if v = 0 then wbPush wb [combineType typeNumber typeNumberZero]
  else if v ≠ v.toInt32.toInt64 then do
    let wb ← wbPush wb [combineType typeNumber typeNumberQword]
    wbPush wb (LittleEndian.bytes 8 v.toUInt64.toNat)
  else if v < 0 then do
    let wb ← wbPush wb [combineType typeNumber typeNumberDword]
    wbPush wb (LittleEndian.bytes 4 v.toInt32.toUInt32.toNat)
  else if v < 0x100 then do
    let wb ← wbPush wb [combineType typeNumber typeNumberByte]
    wbPush wb (LittleEndian.bytes 1 v.toUInt64.toUInt8.toNat)
  else if v < 0x10000 then do
    let wb ← wbPush wb [combineType typeNumber typeNumberWord]
    wbPush wb (LittleEndian.bytes 2 v.toUInt64.toUInt16.toNat)
  else do
    let wb ← wbPush wb [combineType typeNumber typeNumberDword]
    wbPush wb (LittleEndian.bytes 4 v.toUInt64.toUInt32.toNat)

def wbReal (wb : WriteBlock) (bits : UInt64) : Except Fault WriteBlock := do
  let wb ← wbPush wb [combineType typeNumber typeNumberReal]
  wbPush wb (LittleEndian.bytes 8 bits.toNat)

def wbPointer (wb : WriteBlock) (address : UInt64) : Except Fault WriteBlock := do
  let wb ← wbPush wb [UInt8.ofNat typeUserdata]
  wbPush wb (LittleEndian.bytes 8 address.toNat)

def wbString (wb : WriteBlock) (str : List UInt8) (len : Int) : Except Fault WriteBlock :=
  if len < maxCookie then do
    let wb ← wbPush wb [combineType typeShortString len]
    if len > 0 then wbPush wb (str.take len.toNat) else pure wb
  else if len < 0x10000 then do
    let wb ← wbPush wb [combineType typeLongString 2]
    let wb ← wbPush wb (LittleEndian.bytes 2 len.toNat)
    wbPush wb (str.take len.toNat)
  else do
    let wb ← wbPush wb [combineType typeLongString 4]
    let wb ← wbPush wb (LittleEndian.bytes 4 len.toNat)
    wbPush wb (str.take len.toNat)

-- `pack` stands for `pack_one` at the depth of the table, with the slots that are still free.
def wbTableArray (pack : Nat → WriteBlock → LuaValue → Except Fault WriteBlock) (room : Nat)
    (wb : WriteBlock) (entries : Entries) (arraySize : Int) : Except Fault WriteBlock := do
  let wb ←
    if arraySize ≥ maxCookie - 1 then do
      let wb ← wbPush wb [combineType typeTable (maxCookie - 1 : Nat)]
      wbInteger wb (Int64.ofInt arraySize)
    else wbPush wb [combineType typeTable arraySize]
  (List.range' 1 arraySize.toNat).foldlM (fun wb i => do
    let room ← claim .stack room 1
    pack room wb (rawgeti entries i)) wb

def inArray (arraySize : Int) : LuaValue → Bool
  | .scalar (.integer x) => 0 < x.toInt ∧ x.toInt ≤ arraySize
  | _ => false

-- `lua_pushnil` takes a slot, and `lua_next` a second one where there is an entry.
def wbTableHash (pack : Nat → WriteBlock → LuaValue → Except Fault WriteBlock) (room : Nat)
    (wb : WriteBlock) (entries : Entries) (arraySize : Int) : Except Fault WriteBlock := do
  let _ ← claim .stack room 1
  let wb ← entries.foldlM (fun wb entry => do
    let room ← claim .stack room 2
    if inArray arraySize entry.1 then pure wb
    else do
      let wb ← pack room wb entry.1
      pack room wb entry.2) wb
  wbNil wb

def wbTable (pack : Nat → WriteBlock → LuaValue → Except Fault WriteBlock) (room : Nat)
    (wb : WriteBlock) (rawlen : Nat) (entries : Entries) : Except Fault WriteBlock := do
  let arraySize := toCInt rawlen
  let wb ← wbTableArray pack room wb entries arraySize
  wbTableHash pack room wb entries arraySize

-- `levels` is `MAX_DEPTH + 1 - depth`. Nothing here asks Lua for slots, so that `room` only gets
-- smaller from level to level.
def packOne : Nat → Nat → WriteBlock → LuaValue → Except Fault WriteBlock
  | 0, _, _, _ => .error (.error "serialize can't pack too depth table")
  | levels + 1, room, wb, value =>
      match value with
      | .scalar .nil => wbNil wb
      | .scalar (.integer x) => wbInteger wb x
      | .scalar (.number n) => wbReal wb n
      | .scalar (.boolean b) => wbBoolean wb b
      | .scalar (.string str) => wbString wb str (toCInt str.length)
      | .scalar (.lightuserdata address) => wbPointer wb address
      | .table rawlen entries => wbTable (packOne levels) room wb rawlen entries
      | .other type =>
          .error (.error ("Unsupport type " ++ (LuaValue.other type).typename ++ " to serialize"))

def packFrom (wb : WriteBlock) (values : List LuaValue) : Except Fault WriteBlock :=
  values.foldlM (packOne (maxDepth + 1) minStack) wb

-- The blocks are enough for the length, so that the chain never ends early.
def seri : List Block → Nat → List UInt8
  | [], _ => []
  | block :: rest, len =>
      if len ≥ blockSize then block.buffer ++ seri rest (len - blockSize)
      else block.buffer.take len

def luaseriPack (values : List LuaValue) : Except Fault (List UInt8) := do
  let wb ← packFrom wbInit values
  pure (seri (wb.before ++ [wb.current]) wb.len)

abbrev ReadBlock := List UInt8

def invalidStream {α : Type} (rb : ReadBlock) (line : Nat) : Except Fault α :=
  .error (.error ("Invalid serialize stream " ++ toString rb.length ++ " (line:" ++ toString line ++
    ")"))

def rbRead (rb : ReadBlock) (sz line : Nat) : Except Fault (List UInt8 × ReadBlock) :=
  if rb.length < sz then invalidStream rb line else .ok (rb.take sz, rb.drop sz)

def getInteger (rb : ReadBlock) (cookie : Nat) : Except Fault (Int64 × ReadBlock) :=
  if cookie = typeNumberZero then pure (0, rb)
  else if cookie = typeNumberByte then do
    let (n, rb) ← rbRead rb 1 338
    pure (Int64.ofNat (LittleEndian.value n), rb)
  else if cookie = typeNumberWord then do
    let (n, rb) ← rbRead rb 2 346
    pure (Int64.ofNat (LittleEndian.value n), rb)
  else if cookie = typeNumberDword then do
    let (n, rb) ← rbRead rb 4 354
    pure ((UInt32.ofNat (LittleEndian.value n)).toInt32.toInt64, rb)
  else if cookie = typeNumberQword then do
    let (n, rb) ← rbRead rb 8 362
    pure ((UInt64.ofNat (LittleEndian.value n)).toInt64, rb)
  else invalidStream rb 367

def getReal (rb : ReadBlock) : Except Fault (UInt64 × ReadBlock) := do
  let (n, rb) ← rbRead rb 8 377
  pure (UInt64.ofNat (LittleEndian.value n), rb)

def getPointer (rb : ReadBlock) : Except Fault (UInt64 × ReadBlock) := do
  let (v, rb) ← rbRead rb 8 387
  pure (UInt64.ofNat (LittleEndian.value v), rb)

-- A `lua_push...`, where `room` slots of the stack are free.
def push (room : Nat) (value : LuaValue) (rb : ReadBlock) : Except Fault (LuaValue × ReadBlock) :=
  within .stack room 1 (value, rb)

-- A negative length goes to `lua_pushlstring` as a size that is too large for it.
def getBuffer (room : Nat) (rb : ReadBlock) (len : Int) : Except Fault (LuaValue × ReadBlock) :=
  if len < 0 then .error (.error "memory allocation error: block too big")
  else do
    let (p, rb) ← rbRead rb len.toNat 397
    push room (.scalar (.string p)) rb

-- `unpack` stands for `unpack_one` of the elements.
def unpackArray (unpack : ReadBlock → Except Fault (LuaValue × ReadBlock)) :
    List Nat → Entries → ReadBlock → Except Fault (Entries × ReadBlock)
  | [], entries, rb => pure (entries, rb)
  | i :: rest, entries, rb => do
      let (value, rb) ← unpack rb
      unpackArray unpack rest (rawseti entries i value) rb

-- A value is read while its key stays on the stack.
def unpackHash (unpackKey unpackValue : ReadBlock → Except Fault (LuaValue × ReadBlock)) :
    Nat → Entries → ReadBlock → Except Fault (Entries × ReadBlock)
  | 0, _, rb => invalidStream rb 497
  | turns + 1, entries, rb => do
      let (key, rb) ← unpackKey rb
      if key.isNil then pure (entries, rb)
      else do
        let (value, rb) ← unpackValue rb
        let entries ← (rawset entries key value).mapError Fault.error
        unpackHash unpackKey unpackValue turns entries rb

-- The array size of `unpack_table`: the cookie, or an integer of its own.
def unpackSize (rb : ReadBlock) (arraySize : Nat) : Except Fault (Int × ReadBlock) :=
  if arraySize = maxCookie - 1 then do
    let (t, rb) ← rbRead rb 1 410
    let type := (t.getD 0 0).toNat
    let cookie := type / 8
    if type % 8 ≠ typeNumber ∨ cookie = typeNumberReal then invalidStream rb 415
    else do
      let (n, rb) ← getInteger rb cookie
      pure (n.toInt32.toInt, rb)
  else pure ((arraySize : Int), rb)

-- `border` is the border that Lua will find in the new table.
def unpackTable (border : Entries → Nat)
    (unpack : Nat → ReadBlock → Except Fault (LuaValue × ReadBlock)) (turns room : Nat)
    (rb : ReadBlock) (arraySize : Nat) : Except Fault (LuaValue × ReadBlock) := do
  let (arraySize, rb) ← unpackSize rb arraySize
  let room ← claim .stack room 1
  let (entries, rb) ← unpackArray (unpack room) (List.range' 1 arraySize.toNat) [] rb
  let (entries, rb) ← unpackHash (unpack room) (unpack (room - 1)) turns entries rb
  pure (.table (border entries) entries, rb)

def pushValue (border : Entries → Nat)
    (unpack : Nat → ReadBlock → Except Fault (LuaValue × ReadBlock)) (turns room : Nat)
    (rb : ReadBlock) (type cookie : Nat) : Except Fault (LuaValue × ReadBlock) :=
  if type = typeNil then push room nil rb
  else if type = typeBoolean then push room (.scalar (.boolean (cookie ≠ 0))) rb
  else if type = typeNumber then
    if cookie = typeNumberReal then do
      let (n, rb) ← getReal rb
      push room (.scalar (.number n)) rb
    else do
      let (n, rb) ← getInteger rb cookie
      push room (.scalar (.integer n)) rb
  else if type = typeUserdata then do
    let (address, rb) ← getPointer rb
    push room (.scalar (.lightuserdata address)) rb
  else if type = typeShortString then getBuffer room rb cookie
  else if type = typeLongString then
    if cookie = 2 then do
      let (n, rb) ← rbRead rb 2 462
      getBuffer room rb (LittleEndian.value n)
    else if cookie ≠ 4 then invalidStream rb 469
    else do
      let (n, rb) ← rbRead rb 4 473
      getBuffer room rb (toCInt (LittleEndian.value n))
  else if type = typeTable then unpackTable border unpack turns room rb cookie
  else invalidStream rb 486

-- Each call reads a byte, so that the bytes bound the calls.
def unpackOne (border : Entries → Nat) :
    Nat → Nat → ReadBlock → Except Fault (LuaValue × ReadBlock)
  | 0, _, rb => invalidStream rb 497
  | turns + 1, room, rb => do
      let (t, rb) ← rbRead rb 1 497
      let type := (t.getD 0 0).toNat
      pushValue border (unpackOne border turns) turns room rb (type % 8) (type / 8)

-- What `_luaseri_unpack` is called with: one argument, or two.
inductive Source where
  | string
  | pointer
  deriving DecidableEq

def Source.arguments : Source → Nat
  | .string => 1
  | .pointer => 2

-- The slots that Lua has granted at the turn `i` of the loop. `lua_settop (L, 0)` frees the ones of
-- the arguments, and `lua_checkstack (L, i)` at every sixteenth turn, with `i` values on the stack,
-- asks for `i` more.
def granted (source : Source) (i : Nat) : Nat :=
  max (source.arguments + minStack) (2 * ((i + 1) / 16 * 16 - 1))

def unpackAll (border : Entries → Nat) (source : Source) :
    Nat → Nat → ReadBlock → Except Fault (List LuaValue)
  | 0, _, _ => pure []
  | turns + 1, i, rb =>
      match rb with
      | [] => pure []
      | t :: rb => do
          let (value, rb) ← pushValue border (unpackOne border turns) turns (granted source i - i) rb
            (t.toNat % 8) (t.toNat / 8)
          let values ← unpackAll border source turns (i + 1) rb
          pure (value :: values)

def luaseriUnpack (border : Entries → Nat) (source : Source) (buffer : List UInt8) :
    Except Fault (List LuaValue) :=
  unpackAll border source buffer.length 0 buffer

end Pskynet.Seri
