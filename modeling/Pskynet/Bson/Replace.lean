import Pskynet.Bson.Decode

set_option autoImplicit false

namespace Pskynet.Bson

open LittleEndian

-- `n / 2^k` to the nearest integer, and to the even one between two
def roundShift (n k : Nat) : Nat :=
  let q := n / 2 ^ k
  let r := 2 * (n % 2 ^ k)
  if 2 ^ k < r ∨ (r = 2 ^ k ∧ q % 2 = 1) then q + 1 else q

-- The `double` that an integer is converted to: a significand that is rounded up to 2^53 raises the
-- exponent.
def castDouble (i : Int64) : UInt64 :=
  let n := i.toInt.natAbs
  let e := Nat.log2 n
  let significand := if e ≤ 52 then n * 2 ^ (52 - e) else roundShift n (e - 52)
  if n = 0 then 0
  else UInt64.ofNat ((if i.toInt < 0 then 2 ^ 63 else 0) + (e + 1022) * 2 ^ 52 + significand)

section

variable (number2str : UInt64 → List UInt8) (str2number : List UInt8 → Option UInt64)

def tonumber : Value → Option UInt64
  | .number bits => some bits
  | .integer i => some (castDouble i)
  | .string str => str2number str
  | _ => none

def argerror (expected : String) (value : Value) : Fault :=
  .error s!"bad argument #3 to '__newindex' ({expected} expected, got {value.typename})"

def checknumber (value : Value) : Except Fault UInt64 :=
  match tonumber str2number value with
  | some bits => .ok bits
  | none => .error (argerror "number" value)

def checklstring : Value → Except Fault (List UInt8)
  | .string str => .ok str
  | .integer i => .ok (integerText i)
  | .number bits => .ok (number2str bits)
  | value => .error (argerror "string" value)

def toboolean : Value → Bool
  | .nil => false
  | .boolean v => v
  | _ => true

def mismatch (bits : Nat) (value : Value) : Fault :=
  .error s!"{Lua.text (number2str ((tonumber str2number value).getD 0))} must be a {bits}bit integer "

def replaceObject (type : UInt8) (value : Value) : Except Fault (List UInt8) :=
  checklstring number2str value >>= fun data =>
    if data.length < 6 ∨ data[0]? ≠ some 0 ∨ data[1]? ≠ some type then
      .error (.error s!"Type mismatch, need bson type {type}")
    else if type = bsonObjectid then
      if data.length ≠ 14 then .error (.error "Invalid object id") else .ok (data.drop 2)
    else if type = bsonDate then
      if data.length ≠ 6 then .error (.error "Invalid date")
      else .ok (bytes 8 (Int64.ofNat ((word (data.drop 2)).toNat * 1000)).toUInt64.toNat)
    else if data.length ≠ 10 then .error (.error "Invalid timestamp")
    else .ok (bytes 4 (word (data.drop 2)).toNat ++ bytes 4 (word (data.drop 6)).toNat)

def replaceBytes (type : UInt8) (value : Value) : Except Fault (List UInt8) :=
  if type = bsonReal then (checknumber str2number value).map fun d => bytes 8 d.toNat
  else if type = bsonBoolean then .ok [if toboolean value then 1 else 0]
  else if type = bsonObjectid ∨ type = bsonDate ∨ type = bsonTimestamp then
    replaceObject number2str type value
  else if type = bsonInt32 then
    match value with
    | .integer i => .ok (bytes 4 i.toInt32.toUInt32.toNat)
    | _ => .error (mismatch number2str str2number 32 value)
  else if type = bsonInt64 then
    match value with
    | .integer i => .ok (bytes 8 i.toUInt64.toNat)
    | _ => .error (mismatch number2str str2number 64 value)
  else .error (.error s!"Can't replace type {type}")

def storeAt (data : List UInt8) (offset : Nat) (bytes : List UInt8) : Except Fault (List UInt8) :=
  if offset + bytes.length ≤ data.length then
    .ok (data.take offset ++ bytes ++ data.drop (offset + bytes.length))
  else .error .outside

-- `lua_tostring` of a key in a message
def keyText : Key → String
  | .string str => Lua.text (str.takeWhile (· ≠ 0))
  | .integer i => Lua.text (integerText i)
  | .number bits => Lua.text (number2str bits)
  | .other _ _ => "(null)"

def indexed (index : Option Entries) (key : Key) : Except Fault (UInt8 × Nat) :=
  match index with
  | none => .error (.error "call makeindex first")
  | some index =>
      match rawget index key with
      | .integer id => .ok (UInt8.ofNat (id.toInt32.toInt % 32).toNat, (id.toInt32.toInt / 32).toNat)
      | _ => .error (.error s!"Can't replace key : {keyText number2str key}")

def lreplace (data : List UInt8) (index : Option Entries) (key : Key) (value : Value) :
    List UInt8 × Option Fault :=
  match indexed number2str index key with
  | .error fault => (data, some fault)
  | .ok (type, offset) =>
      match replaceBytes number2str str2number type value with
      | .error fault => (data, some fault)
      | .ok bytes =>
          match storeAt data offset bytes with
          | .error fault => (data, some fault)
          | .ok data => (data, none)

end

end Pskynet.Bson
