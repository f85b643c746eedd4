import Pskynet.Shared.Memory

set_option autoImplicit false

namespace Pskynet.Crypt

open Memory

def sb1 : List UInt32 :=
  [
    0x01010400, 0x00000000, 0x00010000, 0x01010404, 0x01010004, 0x00010404, 0x00000004, 0x00010000,
    0x00000400, 0x01010400, 0x01010404, 0x00000400, 0x01000404, 0x01010004, 0x01000000, 0x00000004,
    0x00000404, 0x01000400, 0x01000400, 0x00010400, 0x00010400, 0x01010000, 0x01010000, 0x01000404,
    0x00010004, 0x01000004, 0x01000004, 0x00010004, 0x00000000, 0x00000404, 0x00010404, 0x01000000,
    0x00010000, 0x01010404, 0x00000004, 0x01010000, 0x01010400, 0x01000000, 0x01000000, 0x00000400,
    0x01010004, 0x00010000, 0x00010400, 0x01000004, 0x00000400, 0x00000004, 0x01000404, 0x00010404,
    0x01010404, 0x00010004, 0x01010000, 0x01000404, 0x01000004, 0x00000404, 0x00010404, 0x01010400,
    0x00000404, 0x01000400, 0x01000400, 0x00000000, 0x00010004, 0x00010400, 0x00000000, 0x01010004
  ]

def sb2 : List UInt32 :=
  [
    0x80108020, 0x80008000, 0x00008000, 0x00108020, 0x00100000, 0x00000020, 0x80100020, 0x80008020,
    0x80000020, 0x80108020, 0x80108000, 0x80000000, 0x80008000, 0x00100000, 0x00000020, 0x80100020,
    0x00108000, 0x00100020, 0x80008020, 0x00000000, 0x80000000, 0x00008000, 0x00108020, 0x80100000,
    0x00100020, 0x80000020, 0x00000000, 0x00108000, 0x00008020, 0x80108000, 0x80100000, 0x00008020,
    0x00000000, 0x00108020, 0x80100020, 0x00100000, 0x80008020, 0x80100000, 0x80108000, 0x00008000,
    0x80100000, 0x80008000, 0x00000020, 0x80108020, 0x00108020, 0x00000020, 0x00008000, 0x80000000,
    0x00008020, 0x80108000, 0x00100000, 0x80000020, 0x00100020, 0x80008020, 0x80000020, 0x00100020,
    0x00108000, 0x00000000, 0x80008000, 0x00008020, 0x80000000, 0x80100020, 0x80108020, 0x00108000
  ]

def sb3 : List UInt32 :=
  [
    0x00000208, 0x08020200, 0x00000000, 0x08020008, 0x08000200, 0x00000000, 0x00020208, 0x08000200,
    0x00020008, 0x08000008, 0x08000008, 0x00020000, 0x08020208, 0x00020008, 0x08020000, 0x00000208,
    0x08000000, 0x00000008, 0x08020200, 0x00000200, 0x00020200, 0x08020000, 0x08020008, 0x00020208,
    0x08000208, 0x00020200, 0x00020000, 0x08000208, 0x00000008, 0x08020208, 0x00000200, 0x08000000,
    0x08020200, 0x08000000, 0x00020008, 0x00000208, 0x00020000, 0x08020200, 0x08000200, 0x00000000,
    0x00000200, 0x00020008, 0x08020208, 0x08000200, 0x08000008, 0x00000200, 0x00000000, 0x08020008,
    0x08000208, 0x00020000, 0x08000000, 0x08020208, 0x00000008, 0x00020208, 0x00020200, 0x08000008,
    0x08020000, 0x08000208, 0x00000208, 0x08020000, 0x00020208, 0x00000008, 0x08020008, 0x00020200
  ]

def sb4 : List UInt32 :=
  [
    0x00802001, 0x00002081, 0x00002081, 0x00000080, 0x00802080, 0x00800081, 0x00800001, 0x00002001,
    0x00000000, 0x00802000, 0x00802000, 0x00802081, 0x00000081, 0x00000000, 0x00800080, 0x00800001,
    0x00000001, 0x00002000, 0x00800000, 0x00802001, 0x00000080, 0x00800000, 0x00002001, 0x00002080,
    0x00800081, 0x00000001, 0x00002080, 0x00800080, 0x00002000, 0x00802080, 0x00802081, 0x00000081,
    0x00800080, 0x00800001, 0x00802000, 0x00802081, 0x00000081, 0x00000000, 0x00000000, 0x00802000,
    0x00002080, 0x00800080, 0x00800081, 0x00000001, 0x00802001, 0x00002081, 0x00002081, 0x00000080,
    0x00802081, 0x00000081, 0x00000001, 0x00002000, 0x00800001, 0x00002001, 0x00802080, 0x00800081,
    0x00002001, 0x00002080, 0x00800000, 0x00802001, 0x00000080, 0x00800000, 0x00002000, 0x00802080
  ]

def sb5 : List UInt32 :=
  [
    0x00000100, 0x02080100, 0x02080000, 0x42000100, 0x00080000, 0x00000100, 0x40000000, 0x02080000,
    0x40080100, 0x00080000, 0x02000100, 0x40080100, 0x42000100, 0x42080000, 0x00080100, 0x40000000,
    0x02000000, 0x40080000, 0x40080000, 0x00000000, 0x40000100, 0x42080100, 0x42080100, 0x02000100,
    0x42080000, 0x40000100, 0x00000000, 0x42000000, 0x02080100, 0x02000000, 0x42000000, 0x00080100,
    0x00080000, 0x42000100, 0x00000100, 0x02000000, 0x40000000, 0x02080000, 0x42000100, 0x40080100,
    0x02000100, 0x40000000, 0x42080000, 0x02080100, 0x40080100, 0x00000100, 0x02000000, 0x42080000,
    0x42080100, 0x00080100, 0x42000000, 0x42080100, 0x02080000, 0x00000000, 0x40080000, 0x42000000,
    0x00080100, 0x02000100, 0x40000100, 0x00080000, 0x00000000, 0x40080000, 0x02080100, 0x40000100
  ]

def sb6 : List UInt32 :=
  [
    0x20000010, 0x20400000, 0x00004000, 0x20404010, 0x20400000, 0x00000010, 0x20404010, 0x00400000,
    0x20004000, 0x00404010, 0x00400000, 0x20000010, 0x00400010, 0x20004000, 0x20000000, 0x00004010,
    0x00000000, 0x00400010, 0x20004010, 0x00004000, 0x00404000, 0x20004010, 0x00000010, 0x20400010,
    0x20400010, 0x00000000, 0x00404010, 0x20404000, 0x00004010, 0x00404000, 0x20404000, 0x20000000,
    0x20004000, 0x00000010, 0x20400010, 0x00404000, 0x20404010, 0x00400000, 0x00004010, 0x20000010,
    0x00400000, 0x20004000, 0x20000000, 0x00004010, 0x20000010, 0x20404010, 0x00404000, 0x20400000,
    0x00404010, 0x20404000, 0x00000000, 0x20400010, 0x00000010, 0x00004000, 0x20400000, 0x00404010,
    0x00004000, 0x00400010, 0x20004010, 0x00000000, 0x20404000, 0x20000000, 0x00400010, 0x20004010
  ]

def sb7 : List UInt32 :=
  [
    0x00200000, 0x04200002, 0x04000802, 0x00000000, 0x00000800, 0x04000802, 0x00200802, 0x04200800,
    0x04200802, 0x00200000, 0x00000000, 0x04000002, 0x00000002, 0x04000000, 0x04200002, 0x00000802,
    0x04000800, 0x00200802, 0x00200002, 0x04000800, 0x04000002, 0x04200000, 0x04200800, 0x00200002,
    0x04200000, 0x00000800, 0x00000802, 0x04200802, 0x00200800, 0x00000002, 0x04000000, 0x00200800,
    0x04000000, 0x00200800, 0x00200000, 0x04000802, 0x04000802, 0x04200002, 0x04200002, 0x00000002,
    0x00200002, 0x04000000, 0x04000800, 0x00200000, 0x04200800, 0x00000802, 0x00200802, 0x04200800,
    0x00000802, 0x04000002, 0x04200802, 0x04200000, 0x00200800, 0x00000000, 0x00000002, 0x04200802,
    0x00000000, 0x00200802, 0x04200000, 0x00000800, 0x04000002, 0x04000800, 0x00000800, 0x00200002
  ]

def sb8 : List UInt32 :=
  [
    0x10001040, 0x00001000, 0x00040000, 0x10041040, 0x10000000, 0x10001040, 0x00000040, 0x10000000,
    0x00040040, 0x10040000, 0x10041040, 0x00041000, 0x10041000, 0x00041040, 0x00001000, 0x00000040,
    0x10040000, 0x10000040, 0x10001000, 0x00001040, 0x00041000, 0x00040040, 0x10040040, 0x10041000,
    0x00001040, 0x00000000, 0x00000000, 0x10040040, 0x10000040, 0x10001000, 0x00041040, 0x00040000,
    0x00041040, 0x00040000, 0x10041000, 0x00001000, 0x00000040, 0x10040040, 0x00001000, 0x00041040,
    0x10001000, 0x00000040, 0x10000040, 0x10040000, 0x10040040, 0x10000000, 0x00040000, 0x10001040,
    0x00000000, 0x10041040, 0x00040040, 0x10000040, 0x10040000, 0x10001000, 0x10001040, 0x00000000,
    0x10041040, 0x00041000, 0x00041000, 0x00001040, 0x00001040, 0x00040040, 0x10000000, 0x10041000
  ]

def lhs : List UInt32 :=
  [
    0x00000000, 0x00000001, 0x00000100, 0x00000101,
    0x00010000, 0x00010001, 0x00010100, 0x00010101,
    0x01000000, 0x01000001, 0x01000100, 0x01000101,
    0x01010000, 0x01010001, 0x01010100, 0x01010101
  ]

def rhs : List UInt32 :=
  [
    0x00000000, 0x01000000, 0x00010000, 0x01010000,
    0x00000100, 0x01000100, 0x00010100, 0x01010100,
    0x00000001, 0x01000001, 0x00010001, 0x01010001,
    0x00000101, 0x01000101, 0x00010101, 0x01010101
  ]

inductive DesFault where
  | error (text : String)
  | outside
  | overflow
  deriving DecidableEq, Repr

def table (values : List UInt32) (index mask : UInt32) : UInt32 :=
  values.getD (index &&& mask).toNat 0

def getUint32 (b : List UInt8) (i : Nat) : UInt32 :=
  (b.getD i 0).toUInt32 <<< 24 ||| (b.getD (i + 1) 0).toUInt32 <<< 16 |||
    (b.getD (i + 2) 0).toUInt32 <<< 8 ||| (b.getD (i + 3) 0).toUInt32

def putUint32 (n : UInt32) : List UInt8 :=
  [(n >>> 24).toUInt8, (n >>> 16).toUInt8, (n >>> 8).toUInt8, n.toUInt8]

def exchange (k mask : UInt32) (block : UInt32 × UInt32) : UInt32 × UInt32 :=
  let t := (block.1 >>> k ^^^ block.2) &&& mask
  (block.1 ^^^ t <<< k, block.2 ^^^ t)

def rotateUp (y : UInt32) : UInt32 := (y <<< 1 ||| y >>> 31) &&& 0xFFFFFFFF

def rotateDown (y : UInt32) : UInt32 := (y <<< 31 ||| y >>> 1) &&& 0xFFFFFFFF

-- `T = (X ^ Y) & 0xAAAAAAAA; Y ^= T; X ^= T`
def exchangeOdd (block : UInt32 × UInt32) : UInt32 × UInt32 :=
  let t := (block.1 ^^^ block.2) &&& 0xAAAAAAAA
  (block.1 ^^^ t, block.2 ^^^ t)

def desIp (block : UInt32 × UInt32) : UInt32 × UInt32 :=
  let block := exchange 4 0x0F0F0F0F block
  let block := exchange 16 0x0000FFFF block
  let block := (exchange 2 0x33333333 block.swap).swap
  let block := (exchange 8 0x00FF00FF block.swap).swap
  let block := (block.1, rotateUp block.2)
  let block := exchangeOdd block
  (rotateUp block.1, block.2)

def desFp (block : UInt32 × UInt32) : UInt32 × UInt32 :=
  let block := (rotateDown block.1, block.2)
  let block := exchangeOdd block
  let block := (block.1, rotateDown block.2)
  let block := (exchange 8 0x00FF00FF block.swap).swap
  let block := (exchange 2 0x33333333 block.swap).swap
  let block := exchange 16 0x0000FFFF block
  exchange 4 0x0F0F0F0F block

-- What `DES_ROUND` makes of `Y`, with two words of the key schedule.
def desRound (sk : UInt32 × UInt32) (x y : UInt32) : UInt32 :=
  let t := sk.1 ^^^ x
  let y := y ^^^
    (table sb8 t 0x3F ^^^ table sb6 (t >>> 8) 0x3F ^^^ table sb4 (t >>> 16) 0x3F ^^^
      table sb2 (t >>> 24) 0x3F)
  let t := sk.2 ^^^ (x <<< 28 ||| x >>> 4)
  y ^^^
    (table sb7 t 0x3F ^^^ table sb5 (t >>> 8) 0x3F ^^^ table sb3 (t >>> 16) 0x3F ^^^
      table sb1 (t >>> 24) 0x3F)

-- `(v << k) & mask` and `(v >> k) & mask`
def up (v k mask : UInt32) : UInt32 := v <<< k &&& mask

def down (v k mask : UInt32) : UInt32 := v >>> k &&& mask

def subkeys (x y : UInt32) : List UInt32 :=
  let first : UInt32 :=
    up x 4 0x24000000 ||| up x 28 0x10000000
      ||| up x 14 0x08000000 ||| up x 18 0x02080000
      ||| up x 6 0x01000000 ||| up x 9 0x00200000
      ||| down x 1 0x00100000 ||| up x 10 0x00040000
      ||| up x 2 0x00020000 ||| down x 10 0x00010000
      ||| down y 13 0x00002000 ||| down y 4 0x00001000
      ||| up y 6 0x00000800 ||| down y 1 0x00000400
      ||| down y 14 0x00000200 ||| (y &&& 0x00000100)
      ||| down y 5 0x00000020 ||| down y 10 0x00000010
      ||| down y 3 0x00000008 ||| down y 18 0x00000004
      ||| down y 26 0x00000002 ||| down y 24 0x00000001
  let second : UInt32 :=
    up x 15 0x20000000 ||| up x 17 0x10000000
      ||| up x 10 0x08000000 ||| up x 22 0x04000000
      ||| down x 2 0x02000000 ||| up x 1 0x01000000
      ||| up x 16 0x00200000 ||| up x 11 0x00100000
      ||| up x 3 0x00080000 ||| down x 6 0x00040000
      ||| up x 15 0x00020000 ||| down x 4 0x00010000
      ||| down y 2 0x00002000 ||| up y 8 0x00001000
      ||| down y 14 0x00000808 ||| down y 9 0x00000400
      ||| (y &&& 0x00000200) ||| up y 7 0x00000100
      ||| down y 7 0x00000020 ||| down y 3 0x00000011
      ||| up y 2 0x00000004 ||| down y 21 0x00000002
  [first, second]

def rotate28 (k back x : UInt32) : UInt32 := (x <<< k ||| x >>> back) &&& 0x0FFFFFFF

def scheduleFrom : Nat → Nat → UInt32 → UInt32 → List UInt32
  | 0, _, _, _ => []
  | turns + 1, i, x, y =>
      let once : Bool := i < 2 ∨ i = 8 ∨ i = 15
      let x := if once then rotate28 1 27 x else rotate28 2 26 x
      let y := if once then rotate28 1 27 y else rotate28 2 26 y
      subkeys x y ++ scheduleFrom turns (i + 1) x y

def desMainKs (key : List UInt8) : List UInt32 :=
  let x := getUint32 key 0
  let y := getUint32 key 4
  -- Permuted Choice 1
  let t := (y >>> 4 ^^^ x) &&& 0x0F0F0F0F
  let x := x ^^^ t
  let y := y ^^^ t <<< 4
  let t := (y ^^^ x) &&& 0x10101010
  let x := x ^^^ t
  let y := y ^^^ t
  let x := table lhs x 0xF <<< 3 ||| table lhs (x >>> 8) 0xF <<< 2
    ||| table lhs (x >>> 16) 0xF <<< 1 ||| table lhs (x >>> 24) 0xF
    ||| table lhs (x >>> 5) 0xF <<< 7 ||| table lhs (x >>> 13) 0xF <<< 6
    ||| table lhs (x >>> 21) 0xF <<< 5 ||| table lhs (x >>> 29) 0xF <<< 4
  let y := table rhs (y >>> 1) 0xF <<< 3 ||| table rhs (y >>> 9) 0xF <<< 2
    ||| table rhs (y >>> 17) 0xF <<< 1 ||| table rhs (y >>> 25) 0xF
    ||| table rhs (y >>> 4) 0xF <<< 7 ||| table rhs (y >>> 12) 0xF <<< 6
    ||| table rhs (y >>> 20) 0xF <<< 5 ||| table rhs (y >>> 28) 0xF <<< 4
  scheduleFrom 16 0 (x &&& 0x0FFFFFFF) (y &&& 0x0FFFFFFF)

def roundKey (sk : List UInt32) (i : Nat) : UInt32 × UInt32 :=
  (sk.getD (2 * i) 0, sk.getD (2 * i + 1) 0)

-- `DES_ROUND(Y, X); DES_ROUND(X, Y);`
def roundPair (sk : List UInt32) (block : UInt32 × UInt32) (i : Nat) : UInt32 × UInt32 :=
  let x := desRound (roundKey sk (2 * i)) block.2 block.1
  let y := desRound (roundKey sk (2 * i + 1)) x block.2
  (x, y)

def desCrypt (sk : List UInt32) (input : List UInt8) : List UInt8 :=
  let block := desIp (getUint32 input 0, getUint32 input 4)
  let block := (List.range 8).foldl (roundPair sk) block
  let (y, x) := desFp block.swap
  putUint32 y ++ putUint32 x

def desKey (key : List UInt8) : Except DesFault (List UInt32) :=
  if key.length ≠ 8 then
    .error (.error ("Invalid key size " ++ toString (Int32.ofNat key.length).toInt ++
      ", need 8 bytes"))
  else .ok (desMainKs key)

def smallChunk : Nat := 256

def desBlock (size : Nat) : List UInt8 := malloc (if size > smallChunk then size else smallChunk)

def cryptLoop (sk : List UInt32) (text : List UInt8) (last : Nat) (i : Nat) (buffer : List UInt8) :
    Nat × List UInt8 :=
  if i < last then
    cryptLoop sk text last (i + 8) (memcpy buffer i (desCrypt sk ((text.drop i).take 8)))
  else (i, buffer)
termination_by last - i

def tailBlock (text : List UInt8) (i : Nat) : List UInt8 :=
  let bytes := text.length - i
  (List.range 8).map fun j =>
    if j < bytes then text.getD (i + j) 0 else if j = bytes then 0x80 else 0

def desencode (key text : List UInt8) : Except DesFault (List UInt8) := do
  let sk ← desKey key
  let textsz := text.length
  let chunksz := (textsz + 8) / 8 * 8
  let last := ((Int32.ofNat textsz).toInt - 7).toNat
  let (i, buffer) := cryptLoop sk text last 0 (desBlock chunksz)
  let buffer := memcpy buffer i (desCrypt sk (tailBlock text i))
  pure (buffer.take chunksz)

def decodeKeys (esk : List UInt32) : List UInt32 :=
  (List.range 16).flatMap fun i => [esk.getD (30 - 2 * i) 0, esk.getD (31 - 2 * i) 0]

-- From the last byte down. For a text of one block `i >= textsz-8` holds below 0 as well, where `i` is
-- taken as unsigned.
def paddingLoop (buffer : List UInt8) (textsz : Nat) : Nat → Nat → Except DesFault Nat
  | 0, padding => if textsz = 8 then .error .outside else .ok padding
  | turns + 1, padding =>
      let byte := buffer.getD (textsz - 8 + turns) 0
      if byte = 0 then paddingLoop buffer textsz turns (padding + 1)
      else if byte = 0x80 then .ok padding
      else .error (.error "Invalid des crypt text")

def desdecode (key text : List UInt8) : Except DesFault (List UInt8) := do
  let esk ← desKey key
  let sk := decodeKeys esk
  let textsz := text.length
  if textsz % 8 ≠ 0 ∨ textsz = 0 then
    .error (.error ("Invalid des crypt text length " ++ toString (Int32.ofNat textsz).toInt))
  -- The index `i` of the loop over the blocks is an `int`.
  else if 2 ^ 31 ≤ textsz then .error .overflow
  else do
    let (_, buffer) := cryptLoop sk text textsz 0 (desBlock textsz)
    let padding ← paddingLoop buffer textsz 8 1
    if padding > 8 then .error (.error "Invalid des crypt text")
    else pure (buffer.take (textsz - padding))

end Pskynet.Crypt
