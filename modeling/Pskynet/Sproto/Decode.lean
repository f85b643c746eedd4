import Pskynet.Sproto.Encode

set_option autoImplicit false

namespace Pskynet.Sproto

open Lua

-- Why a decoder ends early: it returns -1, Lua raises an error, or it would read behind the
-- end of its input.
inductive Halt where
  | failed
  | error (text : String)
  | outside
  deriving DecidableEq, Repr

-- What lies at `args->value`: a `uint64_t`, or bytes of the stream.
inductive Value where
  | qword (v : UInt64)
  | bytes (b : List UInt8)

-- `array` is the table at `array_index`, which is also in the result.
structure DecodeUd where
  result : Entries
  arrayTag : Option Nat
  array : Entries
  mainindexTag : Option Nat
  key : LuaValue

def newDecodeUd (mainindexTag : Option Nat) : DecodeUd :=
  { result := [], arrayTag := none, array := [], mainindexTag := mainindexTag, key := nil }

-- `sproto_decode` for a struct: the number of its type, its bytes and the tag of its key.
abbrev DecodeStruct := Nat → List UInt8 → Option Nat → Except Halt (Nat × DecodeUd)

variable (border : Entries → Nat)

def setArray (ud : DecodeUd) (field : Field) (array : Entries) : DecodeUd :=
  { ud with
    array := array
    result := store ud.result (.string field.name) (.table (border array) array) }

def newArray (ud : DecodeUd) (field : Field) (index : Nat) : DecodeUd :=
  if index > 0 ∧ ud.arrayTag ≠ some field.tag then
    setArray border { ud with arrayTag := some field.tag } field []
  else ud

def setValue (ud : DecodeUd) (field : Field) (index : Nat) (value : LuaValue) : DecodeUd :=
  if index > 0 then setArray border ud field (rawseti ud.array index value)
  else
    let ud := if ud.mainindexTag = some field.tag then { ud with key := value } else ud
    { ud with result := store ud.result (.string field.name) value }

def decodeStruct (struct : DecodeStruct) (field : Field) (ud : DecodeUd) (index : Nat)
    (b : List UInt8) : Except Halt DecodeUd := do
  let (r, sub) ← struct field.st b field.key
  let value := LuaValue.table (border sub.result) sub.result
  if r ≠ b.length then .error .failed
  else
    match field.key with
    | none => pure (setValue border ud field index value)
    | some key =>
        if sub.key.isNil then
          .error (.error ("Can't find main index (tag=" ++ toString key ++ ") in [" ++
            text field.name ++ "]"))
        else do
          let array ← (rawset ud.array sub.key value).mapError Halt.error
          pure (setArray border ud field array)

-- The callback of `ldecode`. Where it returns another value than 0, its caller returns -1.
def decode (struct : Option DecodeStruct) (field : Field) (ud : DecodeUd) (index : Nat)
    (value : Value) : Except Halt DecodeUd :=
  match struct with
  | none => .error (.error "The table is too deep")
  | some struct =>
      let ud := newArray border ud field index
      match field.type, value with
      | .integer, .qword v => pure (setValue border ud field index (.scalar (.integer v.toInt64)))
      | .boolean, .qword v =>
          pure (setValue border ud field index (.scalar (.boolean (v.toUInt32 ≠ 0))))
      | .string, .bytes b => pure (setValue border ud field index (.scalar (.string b)))
      | .struct, .bytes b => decodeStruct border struct field ud index b
      | _, _ => .error .outside

def expand64 (v : UInt32) : UInt64 :=
  if v.toUInt64 &&& 0x80000000 ≠ 0 then v.toUInt64 ||| 0xffffffff00000000 else v.toUInt64

def toword (stream : List UInt8) : Nat := LittleEndian.value (stream.take 2)

def todword (stream : List UInt8) : UInt32 := UInt32.ofNat (LittleEndian.value (stream.take 4))

def toqword (stream : List UInt8) : UInt64 :=
  (todword stream).toUInt64 ||| (todword (stream.drop 4)).toUInt64 <<< 32

abbrev DecodeCallback := DecodeUd → Nat → Value → Except Halt DecodeUd

def decodeValues (cb : DecodeCallback) (value : Nat → UInt64) (count : Nat) (ud : DecodeUd) :
    Except Halt DecodeUd :=
  (List.range count).foldlM (fun ud i => cb ud (i + 1) (.qword (value i))) ud

def decodeArrayObject (cb : DecodeCallback) : Nat → Nat → List UInt8 → DecodeUd →
    Except Halt DecodeUd
  | 0, _, _, ud => pure ud
  | turns + 1, index, stream, ud =>
      if stream.length = 0 then pure ud
      else if stream.length < sizeofLength then .error .failed
      else
        let hsz := (todword stream).toNat
        let rest := stream.drop sizeofLength
        if hsz > rest.length then .error .failed
        else do
          let ud ← cb ud index (.bytes (rest.take hsz))
          decodeArrayObject cb turns (index + 1) (rest.drop hsz) ud

-- `stream` is what follows the length `sz`. Only the overflow of `sz + 4` in the caller lets a
-- longer `sz` than the stream through; as an `int` it is then below zero.
def decodeArray (cb : DecodeCallback) (field : Field) (sz : Nat) (stream : List UInt8)
    (ud : DecodeUd) : Except Halt DecodeUd :=
  match field.type with
  | .integer =>
      if sz < 1 then .error .failed
      else
        match stream with
        | [] => .error .outside
        | len :: stream =>
            if len = 4 then
              if (sz - 1) % 4 ≠ 0 then .error .failed
              else if stream.length < sz - 1 then .error .outside
              else decodeValues cb (fun i => expand64 (todword (stream.drop (i * 4)))) ((sz - 1) / 4) ud
            else if len = 8 then
              if (sz - 1) % 8 ≠ 0 then .error .failed
              else if stream.length < sz - 1 then .error .outside
              else decodeValues cb (fun i => toqword (stream.drop (i * 8))) ((sz - 1) / 8) ud
            else .error .failed
  | .boolean =>
      if stream.length < sz then .error .outside
      else decodeValues cb (fun i => (stream.getD i 0).toUInt64) sz ud
  | .string | .struct =>
      if stream.length < sz then pure ud else decodeArrayObject cb sz 1 (stream.take sz) ud

def decodeData (cb : DecodeCallback) (field : Field) (currentdata : List UInt8) (ud : DecodeUd) :
    Except Halt DecodeUd :=
  let sz := (todword currentdata).toNat
  let stream := currentdata.drop sizeofLength
  if field.array then decodeArray cb field sz stream ud
  else
    match field.type with
    | .integer =>
        if sz = 4 then cb ud 0 (.qword (expand64 (todword stream)))
        else if sz ≠ 8 then .error .failed
        else cb ud 0 (.qword (toqword stream))
    | .string => if stream.length < sz then .error .outside else cb ud 0 (.bytes (stream.take sz))
    | .struct => if stream.length < sz then .error .failed else cb ud 0 (.bytes (stream.take sz))
    | .boolean => .error .failed

def decodeLoop (struct : Option DecodeStruct) (st : SprotoType) : List Nat → Int → List UInt8 →
    DecodeUd → Except Halt (List UInt8 × DecodeUd)
  | [], _, datastream, ud => pure (datastream, ud)
  | value :: words, tag, datastream, ud =>
      let tag := tag + 1
      if value % 2 = 1 then decodeLoop struct st words (tag + (value / 2 : Nat)) datastream ud
      else
        let value : Int := (value / 2 : Nat) - 1
        if value < 0 then
          let sz := todword datastream + 4
          if datastream.length < sizeofLength ∨ datastream.length < sz.toNat then .error .failed
          else
            let rest := datastream.drop sz.toNat
            match findtag st tag with
            | none => decodeLoop struct st words tag rest ud
            | some field => do
                let ud ← decodeData (decode border struct field) field datastream ud
                decodeLoop struct st words tag rest ud
        else
          match findtag st tag with
          | none => decodeLoop struct st words tag datastream ud
          | some field =>
              if field.array ∨ field.type ≠ .integer ∧ field.type ≠ .boolean then .error .failed
              else do
                let ud ← decode border struct field ud 0 (.qword (UInt64.ofNat value.toNat))
                decodeLoop struct st words tag datastream ud

def decodeType (struct : Option DecodeStruct) (st : SprotoType) (data : List UInt8)
    (ud : DecodeUd) : Except Halt (Nat × DecodeUd) :=
  if data.length < sizeofHeader then .error .failed
  else
    let fn := toword data
    let stream := data.drop sizeofHeader
    if stream.length < fn * sizeofField then .error .failed
    else do
      let words := (List.range fn).map fun i => toword (stream.drop (i * sizeofField))
      let (rest, ud) ← decodeLoop border struct st words (-1) (stream.drop (fn * sizeofField)) ud
      pure (data.length - rest.length, ud)

-- `levels` is `ENCODE_DEEPLEVEL - deep`.
def sprotoDecode (schema : Schema) : Nat → DecodeStruct
  | 0, type, data, mainindexTag =>
      decodeType border none (schema type) data (newDecodeUd mainindexTag)
  | levels + 1, type, data, mainindexTag =>
      decodeType border (some (sprotoDecode schema levels)) (schema type) data
        (newDecodeUd mainindexTag)

def ldecode (schema : Schema) (type : Nat) (buffer : List UInt8) :
    Except Halt (LuaValue × Nat) :=
  match sprotoDecode border schema encodeDeeplevel type buffer none with
  | .ok (r, ud) => .ok (.table (border ud.result) ud.result, r)
  | .error .failed => .error (.error "decode error")
  | .error halt => .error halt

end Pskynet.Sproto
