import Pskynet.Shared.CircularBuffer
import Pskynet.Shared.Framing
import Pskynet.Shared.Memory

set_option autoImplicit false

namespace Pskynet.Netpack

open Memory

def queueSize : Nat := 1024

def hashSize : Int := 4096

structure Pack where
  id : Int
  size : Nat
  buffer : List UInt8
  deriving DecidableEq, Repr, Inhabited

structure Uncomplete where
  pack : Pack
  read : Int
  header : Nat
  deriving DecidableEq, Repr, Inhabited

structure Queue where
  ring : CircularBuffer Pack
  hash : Nat → List Uncomplete

-- The shifts of a signed `int` round down, as the division of `Int` does.
def hashFd (fd : Int) : Nat :=
  let a := fd / 2 ^ 24
  let b := fd / 2 ^ 12
  let c := fd
  ((a + b + c) % 2 ^ 32 % hashSize).toNat

def unlink (fd : Int) : List Uncomplete → Option (Uncomplete × List Uncomplete)
  | [] => none
  | uc :: rest =>
      if uc.pack.id = fd then some (uc, rest)
      else (unlink fd rest).map fun (found, left) => (found, uc :: left)

def findUncomplete (q : Queue) (fd : Int) : Option (Uncomplete × Queue) :=
  (unlink fd (q.hash (hashFd fd))).map fun (uc, chain) =>
    (uc, { q with hash := Function.update q.hash (hashFd fd) chain })

def Queue.link (q : Queue) (fd : Int) (uc : Uncomplete) : Queue :=
  { q with hash := Function.update q.hash (hashFd fd) (uc :: q.hash (hashFd fd)) }

-- `nil` or the userdata at index 1 of the Lua stack.
def getQueue : Option Queue → Queue
  | some q => q
  | none => { ring := .new queueSize default (by decide), hash := fun _ => [] }

def expandQueue (q : Queue) : Queue :=
  { q with ring := q.ring.regrow q.ring.cap (q.ring.cap + queueSize) (by simp [queueSize]) }

def pushData (q : Option Queue) (fd : Int) (buffer : List UInt8) (size : Nat) (clone : Bool) :
    Queue :=
  let buffer := if clone then memcpy (malloc size) 0 (buffer.take size) else buffer
  let q := getQueue q
  let pushed := { q with ring := q.ring.put { id := fd, size := size, buffer := buffer } }
  if pushed.ring.head = pushed.ring.tail then expandQueue pushed else pushed

-- The caller fills in the entry that `save_uncomplete` has linked.
def saveUncomplete (q : Option Queue) (fd : Int) (fill : Uncomplete → Uncomplete) : Queue :=
  let uc := { pack := { id := fd, size := 0, buffer := [] }, read := 0, header := 0 }
  (getQueue q).link fd (fill uc)

def readSize (a b : UInt8) : Nat := a.toNat <<< 8 ||| b.toNat

def saveHeader (q : Option Queue) (fd : Int) (byte : UInt8) : Queue :=
  saveUncomplete q fd fun uc => { uc with read := -1, header := byte.toNat }

def saveBody (q : Option Queue) (fd : Int) (packSize : Nat) (buffer : List UInt8) : Queue :=
  saveUncomplete q fd fun uc =>
    { uc with
      read := buffer.length
      pack := { uc.pack with size := packSize, buffer := memcpy (malloc packSize) 0 buffer } }

-- The callers never pass an empty buffer.
def pushMore (q : Queue) (fd : Int) (buffer : List UInt8) : Queue :=
  match buffer with
  | [] => q
  | [byte] => saveHeader (some q) fd byte
  | a :: b :: body =>
      let packSize := readSize a b
      if body.length < packSize then saveBody (some q) fd packSize body
      else
        let pushed := pushData (some q) fd body packSize true
        let left := body.drop packSize
        if 0 < left.length then pushMore pushed fd left else pushed
termination_by buffer.length
decreasing_by simp; omega

inductive Result where
  | nothing
  | data (fd : Int) (buffer : List UInt8) (size : Nat)
  | more
  | opened (fd : Int) (text : List UInt8)
  | closed (fd : Int)
  | error (fd : Int) (text : List UInt8)

-- The rest of the branch of `filter_data_` that fills an entry, once the size is known.
def fillUncomplete (q : Queue) (fd : Int) (uc : Uncomplete) (buffer : List UInt8) :
    Queue × Result :=
  let read := uc.read.toNat
  let need := uc.pack.size - read
  if buffer.length < need then
    let pack := { uc.pack with buffer := memcpy uc.pack.buffer read buffer }
    (q.link fd { uc with pack := pack, read := read + buffer.length }, .nothing)
  else
    let filled := memcpy uc.pack.buffer read (buffer.take need)
    let left := buffer.drop need
    if left.length = 0 then (q, .data fd filled uc.pack.size)
    else (pushMore (pushData (some q) fd filled uc.pack.size false) fd left, .more)

def filterData (q : Option Queue) (fd : Int) (buffer : List UInt8) : Option Queue × Result :=
  match q.bind (findUncomplete · fd) with
  | some (uc, q) =>
      if uc.read < 0 then
        match buffer with
        | [] => (some q, .nothing)
        | byte :: buffer =>
            let packSize := byte.toNat ||| uc.header <<< 8
            let pack := { uc.pack with size := packSize, buffer := malloc packSize }
            let (q, result) := fillUncomplete q fd { uc with pack := pack, read := 0 } buffer
            (some q, result)
      else
        let (q, result) := fillUncomplete q fd uc buffer
        (some q, result)
  | none =>
      match buffer with
      | [] => (q, .nothing)
      | [byte] => (some (saveHeader q fd byte), .nothing)
      | a :: b :: body =>
          let packSize := readSize a b
          if body.length < packSize then (some (saveBody q fd packSize body), .nothing)
          else if body.length = packSize then
            (q, .data fd (memcpy (malloc packSize) 0 body) body.length)
          else
            let pushed := pushData q fd body packSize true
            (some (pushMore pushed fd (body.drop packSize)), .more)

inductive SocketMessage where
  | data (id : Int) (buffer : List UInt8)
  | connect (id : Int)
  | close (id : Int)
  | accept (id ud : Int) (text : List UInt8)
  | error (id : Int) (text : List UInt8)

def lfilter (q : Option Queue) : SocketMessage → Option Queue × Result
  | .data id buffer => filterData q id buffer
  | .connect _ => (q, .nothing)
  | .close id => (q, .closed id)
  | .accept _ ud text => (q, .opened ud text)
  | .error id text => (q, .error id text)

def lpop (q : Option Queue) : Option (Pack × Queue) :=
  q.bind fun q => q.ring.pop.map fun (pack, ring) => (pack, { q with ring := ring })

end Pskynet.Netpack
