import Pskynet.Seri.Serialize

set_option autoImplicit false

namespace Pskynet.Seri

open Lua

-- `len` and `ptr` of the read block, and where `ptr` has been, the newest place first.
structure ReadState where
  len : Int
  ptr : Int
  trail : List Int

-- What ends the reading early: also a byte that is not one of the `len`, and turns that do not
-- suffice.
inductive Stop where
  | fault (fault : Fault)
  | outside
  | endless

abbrev Reader := ExceptT Stop (StateM ReadState)

def maxString : Nat := 2 ^ 63 - 1 - 24

namespace Pointer

def invalidStream {α : Type} (line : Nat) : Reader α := do
  let rb ← get
  throw (.fault (.error ("Invalid serialize stream " ++ toString rb.len ++ " (line:" ++
    toString line ++ ")")))

def rbRead (sz : Int) : Reader (Option Int) := do
  let rb ← get
  if rb.len < sz then pure none
  else if 2 ^ 31 ≤ rb.len - sz then throw (.fault .overflow)
  else do
    set { rb with ptr := rb.ptr + sz, len := rb.len - sz, trail := (rb.ptr + sz) :: rb.trail }
    pure (some rb.ptr)

section

variable (buffer : List UInt8) (border : Entries → Nat)

def load (p : Int) (size : Nat) : Reader (List UInt8) :=
  if 0 ≤ p ∧ p + size ≤ buffer.length then pure ((buffer.drop p.toNat).take size)
  else throw .outside

-- `rb_read`, with the stream invalid on NULL, and a copy of the bytes.
def readBytes (sz line : Nat) : Reader (List UInt8) := do
  match ← rbRead sz with
  | none => invalidStream line
  | some p => load buffer p sz

def getInteger (cookie : Nat) : Reader Int64 :=
  if cookie = typeNumberZero then pure 0
  else if cookie = typeNumberByte then do
    let n ← readBytes buffer 1 338
    pure (Int64.ofNat (LittleEndian.value n))
  else if cookie = typeNumberWord then do
    let n ← readBytes buffer 2 346
    pure (Int64.ofNat (LittleEndian.value n))
  else if cookie = typeNumberDword then do
    let n ← readBytes buffer 4 354
    pure (UInt32.ofNat (LittleEndian.value n)).toInt32.toInt64
  else if cookie = typeNumberQword then do
    let n ← readBytes buffer 8 362
    pure (UInt64.ofNat (LittleEndian.value n)).toInt64
  else invalidStream 367

def getReal : Reader UInt64 := do
  let n ← readBytes buffer 8 377
  pure (UInt64.ofNat (LittleEndian.value n))

def getPointer : Reader UInt64 := do
  let v ← readBytes buffer 8 387
  pure (UInt64.ofNat (LittleEndian.value v))

def push (room : Nat) (value : LuaValue) : Reader LuaValue :=
  if room = 0 then throw (.fault .stack) else pure value

-- `lua_pushlstring`: the length is a `size_t`, and 1 is added to it before it is compared.
def pushlstring (room : Nat) (p len : Int) : Reader LuaValue := do
  let l := (len % 2 ^ 64).toNat
  if maxString < (l + 1) % 2 ^ 64 then
    throw (.fault (.error "memory allocation error: block too big"))
  else do
    let str ← load buffer p l
    push room (.scalar (.string str))

def getBuffer (room : Nat) (len : Int) : Reader LuaValue := do
  match ← rbRead len with
  | none => invalidStream 397
  | some p => pushlstring buffer room p len

def unpackArray (unpack : Reader LuaValue) : List Nat → Entries → Reader Entries
  | [], entries => pure entries
  | i :: rest, entries => do
      let value ← unpack
      unpackArray unpack rest (rawseti entries i value)

def unpackHash (unpackKey unpackValue : Reader LuaValue) : Nat → Entries → Reader Entries
  | 0, _ => throw .endless
  | turns + 1, entries => do
      let key ← unpackKey
      if key.isNil then pure entries
      else do
        let value ← unpackValue
        match rawset entries key value with
        | .error text => throw (.fault (.error text))
        | .ok entries => unpackHash unpackKey unpackValue turns entries

def unpackSize (arraySize : Nat) : Reader Int :=
  if arraySize = maxCookie - 1 then do
    let t ← readBytes buffer 1 410
    let type := (t.getD 0 0).toNat
    let cookie := type / 8
    if type % 8 ≠ typeNumber ∨ cookie = typeNumberReal then invalidStream 415
    else do
      let n ← getInteger buffer cookie
      pure n.toInt32.toInt
  else pure (arraySize : Int)

def unpackTable (unpack : Nat → Reader LuaValue) (turns room arraySize : Nat) :
    Reader LuaValue := do
  let arraySize ← unpackSize buffer arraySize
  if room = 0 then throw (.fault .stack)
  else do
    let entries ← unpackArray (unpack (room - 1)) (List.range' 1 arraySize.toNat) []
    let entries ← unpackHash (unpack (room - 1)) (unpack (room - 2)) turns entries
    pure (.table (border entries) entries)

def pushValue (unpack : Nat → Reader LuaValue) (turns room type cookie : Nat) : Reader LuaValue :=
  if type = typeNil then push room nil
  else if type = typeBoolean then push room (.scalar (.boolean (cookie ≠ 0)))
  else if type = typeNumber then
    if cookie = typeNumberReal then do
      let n ← getReal buffer
      push room (.scalar (.number n))
    else do
      let n ← getInteger buffer cookie
      push room (.scalar (.integer n))
  else if type = typeUserdata then do
    let address ← getPointer buffer
    push room (.scalar (.lightuserdata address))
  else if type = typeShortString then getBuffer buffer room cookie
  else if type = typeLongString then
    if cookie = 2 then do
      let n ← readBytes buffer 2 462
      getBuffer buffer room (LittleEndian.value n)
    else if cookie ≠ 4 then invalidStream 469
    else do
      let n ← readBytes buffer 4 473
      getBuffer buffer room (toCInt (LittleEndian.value n))
  else if type = typeTable then unpackTable buffer border unpack turns room cookie
  else invalidStream 486

def unpackOne : Nat → Nat → Reader LuaValue
  | 0, _ => throw .endless
  | turns + 1, room => do
      let t ← readBytes buffer 1 497
      let type := (t.getD 0 0).toNat
      pushValue buffer border (unpackOne turns) turns room (type % 8) (type / 8)

def unpackAll (source : Source) : Nat → Nat → Reader (List LuaValue)
  | 0, _ => throw .endless
  | turns + 1, i => do
      match ← rbRead 1 with
      | none => pure []
      | some p => do
          let t ← load buffer p 1
          let type := (t.getD 0 0).toNat
          let value ← pushValue buffer border (unpackOne buffer border turns) turns
            (granted source i - i) (type % 8) (type / 8)
          let values ← unpackAll source turns (i + 1)
          pure (value :: values)

-- The length of a string is cut to an `int`. One more turn than bytes is enough.
def luaseriUnpack (source : Source) : Except Stop (List LuaValue) × ReadState :=
  let len := toCInt buffer.length
  let start : ReadState := { len := len, ptr := 0, trail := [0] }
  if len = 0 then (.ok [], start)
  else
    let bytes := buffer.take len.toNat
    (unpackAll bytes border source (bytes.length + 1) 0).run.run start

end

end Pointer

end Pskynet.Seri
