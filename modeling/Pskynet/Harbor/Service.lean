import Pskynet.Server.Handle
import Pskynet.Shared.CircularBuffer
import Pskynet.Shared.Memory

set_option autoImplicit false

namespace Pskynet.Harbor

open Server Memory

def hashSize : Nat := 4096
def defaultQueueSize : Nat := 1024
def headerCookieLength : Nat := 12
def remoteMax : Nat := 256
def globalNameLength : Nat := 16

abbrev Name := Fin 16 → UInt8

structure Header where
  source : UInt32
  destination : UInt32
  session : UInt32
  deriving DecidableEq, Repr, Inhabited

-- A block of memory that came with a message; `id` tells it from other blocks.
structure Buffer where
  id : Nat
  bytes : List UInt8
  deriving DecidableEq, Repr, Inhabited

structure HarborMsg where
  header : Header
  buffer : Buffer
  deriving DecidableEq, Repr, Inhabited

abbrev Queue := CircularBuffer HarborMsg

def newQueue : Queue := .new defaultQueueSize default (by decide)

def pushQueueMsg (queue : Queue) (m : HarborMsg) : Queue :=
  if (queue.tail + 1) % queue.cap = queue.head then
    (queue.regrow (queue.cap - 1) (queue.cap * 2) (by have := queue.head_lt; omega)).put m
  else queue.put m

structure KeyValue where
  key : Name
  hash : UInt32
  value : UInt32
  queue : Option Queue

abbrev HashMap := Nat → List KeyValue

def word (name : Name) (i : Fin 4) : UInt32 :=
  let byte (k : Fin 4) : UInt32 := (name ⟨4 * i + k, by omega⟩).toUInt32
  byte 0 ||| byte 1 <<< 8 ||| byte 2 <<< 16 ||| byte 3 <<< 24

def nameHash (name : Name) : UInt32 := word name 0 ^^^ word name 1 ^^^ word name 2 ^^^ word name 3

def cString (bytes : List UInt8) : List UInt8 := bytes.takeWhile (· ≠ 0)

-- `hash == h && strncmp(key, name, GLOBALNAME_LENGTH) == 0`
def nameKey (name : Name) : UInt32 × List UInt8 := (nameHash name, cString (List.ofFn name))

def KeyValue.nameKey (node : KeyValue) : UInt32 × List UInt8 :=
  (node.hash, cString (List.ofFn node.key))

def bucket (name : Name) : Nat := (nameHash name).toNat % hashSize

def hashSearch (hash : HashMap) (name : Name) : Option KeyValue :=
  (hash (bucket name)).find? fun node => node.nameKey = nameKey name

def hashInsert (hash : HashMap) (name : Name) : HashMap :=
  Function.update hash (bucket name)
    ({ key := name, hash := nameHash name, value := 0, queue := none } :: hash (bucket name))

-- `node = hash_search(..); if (node == NULL) node = hash_insert(..);`
def hashNode (hash : HashMap) (name : Name) : HashMap :=
  if (hashSearch hash name).isNone then hashInsert hash name else hash

-- Assignments through the pointer that `hash_search` or `hash_insert` returned.
def hashWrite (hash : HashMap) (name : Name) (value : UInt32) (queue : Option Queue) : HashMap :=
  Function.update hash (bucket name) ((hash (bucket name)).map fun node =>
    if node.nameKey = nameKey name then { node with value := value, queue := queue } else node)

inductive Status where
  | wait
  | handshake
  | header
  | content
  | down
  deriving DecidableEq, Repr

structure Slave where
  fd : Int
  queue : Option Queue
  status : Status
  length : Nat
  read : Nat
  size : List UInt8
  recvBuffer : List UInt8

-- What the service does to its surroundings; `buffer` is the block the bytes come from.
inductive Effect where
  | send (source destination type session : UInt32) (payload : List UInt8) (buffer : Option Nat)
  | write (fd : Int) (bytes : List UInt8) (buffer : Option Nat)
  | start (fd : Int)
  | close (fd : Int)
  | free (buffer : Nat)
  | error (text : String)
  deriving DecidableEq, Repr

-- `ctx` stands for the rest of the node: after some effects, is there a service under a
-- handle. `buffers` counts the blocks that messages have brought.
structure Harbor where
  ctx : List Effect → UInt32 → Bool
  id : UInt32
  slave : UInt32
  map : HashMap
  s : Nat → Slave
  log : List Effect
  buffers : Nat

def harborCreate (ctx : List Effect → UInt32 → Bool) (id slave : UInt32) : Harbor where
  ctx := ctx
  id := id
  slave := slave
  map := fun _ => []
  s := fun _ =>
    { fd := 0, queue := none, status := .wait, length := 0, read := 0, size := [0, 0, 0, 0],
      recvBuffer := [] }
  log := []
  buffers := 0

def Harbor.did (h : Harbor) (effect : Effect) : Harbor := { h with log := h.log ++ [effect] }

def Harbor.setSlave (h : Harbor) (id : Nat) (slave : Slave) : Harbor :=
  { h with s := Function.update h.s id slave }

def hex (n : UInt32) : String := String.ofList (Nat.toDigits 16 n.toNat)

def text (bytes : List UInt8) : String :=
  String.ofList ((cString bytes).map fun byte => Char.ofNat byte.toNat)

def releaseQueue (h : Harbor) : Option Queue → Harbor
  | none => h
  | some queue => (queue.drain (fun h m => h.did (.free m.buffer.id)) h).1

def closeHarbor (h : Harbor) (id : Nat) : Harbor :=
  let s := h.s id
  let h := if s.fd ≠ 0 then h.did (.close s.fd) else h
  (releaseQueue h s.queue).setSlave id { s with status := .down, queue := none }

def reportHarborDown (h : Harbor) (id : Nat) : Harbor :=
  h.did (.send 0 h.slave 0 0 ("D " ++ toString id).toUTF8.toList none)

def toBigendian (n : UInt32) : List UInt8 :=
  [(n >>> 24).toUInt8, (n >>> 16).toUInt8, (n >>> 8).toUInt8, n.toUInt8]

def headerToMessage (header : Header) : List UInt8 :=
  toBigendian header.source ++ toBigendian header.destination ++ toBigendian header.session

def fromBigendian : List UInt8 → UInt32
  | [a, b, c, d] => a.toUInt32 <<< 24 ||| b.toUInt32 <<< 16 ||| c.toUInt32 <<< 8 ||| d.toUInt32
  | _ => 0

def messageToHeader (message : List UInt8) : Header where
  source := fromBigendian (message.take 4)
  destination := fromBigendian ((message.drop 4).take 4)
  session := fromBigendian ((message.drop 8).take 4)

def ptypeTagDontcopy : UInt32 := 0x10000

-- `skynet_send` returns the session, which may be negative.
def forwardLocalMessage (h : Harbor) (msg : List UInt8) : Option Harbor :=
  if msg.length < headerCookieLength then none
  else
    let size := msg.length - headerCookieLength
    let header := messageToHeader (msg.drop size)
    let type := header.destination >>> 24 ||| ptypeTagDontcopy
    let destination := header.destination &&& handleMask ||| h.id <<< 24
    let sent := h.did (.send header.source destination type header.session (msg.take size) none)
    if h.ctx h.log destination ∧ header.session < 0x80000000 then some sent
    else
      let sent := sent.did (.send destination header.source 7 header.session [] none)
      some (sent.did (.error
        ("Unknown destination :" ++ hex destination ++ " from :" ++ hex header.source)))

-- The block that `send_remote` hands to `skynet_socket_send`.
def HarborMsg.frame (m : HarborMsg) : List UInt8 :=
  toBigendian (m.buffer.bytes.length + headerCookieLength).toUInt32 ++ m.buffer.bytes ++
    headerToMessage m.header

def sendRemote (h : Harbor) (fd : Int) (m : HarborMsg) : Harbor :=
  h.did (.write fd m.frame (some m.buffer.id))

-- Returns the harbor and `node->queue`; an assertion that fails ends the process.
def dispatchNameQueue (h : Harbor) (key : Name) (handle : UInt32) (queue : Queue) :
    Option (Harbor × Option Queue) :=
  let harborId := (handle >>> 24).toNat
  let s := h.s harborId
  if harborId = 0 then none
  else if s.fd = 0 then
    if s.status = .down then
      let dropped := h.did (.error ("Drop message to " ++ text (List.ofFn key) ++ " (in harbor " ++
        toString harborId ++ ")"))
      some (dropped, some queue)
    else
      match s.queue with
      | none => some (h.setSlave harborId { s with queue := some queue }, none)
      | some target =>
          let (target, queue) := queue.drain pushQueueMsg target
          some (h.setSlave harborId { s with queue := some target }, some queue)
  else
    let (h, queue) := queue.drain (fun h m =>
      let header := { m.header with destination := m.header.destination ||| handle &&& handleMask }
      sendRemote h s.fd { m with header := header }) h
    some (h, some queue)

def dispatchQueue (h : Harbor) (id : Nat) : Option Harbor :=
  let s := h.s id
  if s.fd = 0 then none
  else
    match s.queue with
    | none => some h
    | some queue =>
        let (h, queue) := queue.drain (fun h m => sendRemote h s.fd m) h
        some ((releaseQueue h (some queue)).setSlave id { s with queue := none })

-- `STATUS_HEADER` in `push_socket_data`: the bytes that are left when it falls through.
def readHeader (h : Harbor) (id : Nat) (buffer : List UInt8) : Harbor × Option (List UInt8) :=
  let s := h.s id
  let need := 4 - s.read
  if buffer.length < need then
    (h.setSlave id
      { s with size := memcpy s.size s.read buffer, read := s.read + buffer.length }, none)
  else
    let size := memcpy s.size s.read (buffer.take need)
    let left := buffer.drop need
    if size.getD 0 0 ≠ 0 then
      let h := h.setSlave id { s with size := size }
      (closeHarbor (h.did (.error ("Message is too long from harbor " ++ toString id))) id, none)
    else
      let length := (size.getD 1 0).toNat <<< 16 ||| (size.getD 2 0).toNat <<< 8 |||
        (size.getD 3 0).toNat
      let h := h.setSlave id
        { s with
          size := size, length := length, read := 0, recvBuffer := malloc length,
          status := .content }
      (h, if left.length = 0 then none else some left)

-- `STATUS_CONTENT`: the bytes that are left when the loop goes on.
def readContent (h : Harbor) (id : Nat) (buffer : List UInt8) :
    Option (Harbor × Option (List UInt8)) :=
  let s := h.s id
  let need := s.length - s.read
  if buffer.length < need then
    some (h.setSlave id
      { s with recvBuffer := memcpy s.recvBuffer s.read buffer, read := s.read + buffer.length },
      none)
  else
    let msg := memcpy s.recvBuffer s.read (buffer.take need)
    (forwardLocalMessage h msg).map fun h =>
      let left := buffer.drop need
      (h.setSlave id { s with length := 0, read := 0, recvBuffer := [], status := .header },
        if left.length = 0 then none else some left)

def readMessage (h : Harbor) (id : Nat) (buffer : List UInt8) :
    Option (Harbor × Option (List UInt8)) :=
  match readHeader h id buffer with
  | (h, none) => some (h, none)
  | (h, some left) => readContent h id left

-- `STATUS_HANDSHAKE`. After a lone byte the loop goes on with nothing left to read.
def readHandshake (h : Harbor) (id : Nat) (fd : Int) (buffer : List UInt8) :
    Option (Harbor × Option (List UInt8)) :=
  match buffer with
  | [] => none
  | remoteId :: left =>
      if remoteId.toNat ≠ id then
        let h := h.did (.error ("Invalid shakehand id (" ++ toString id ++ ") from fd = " ++
          toString fd ++ " , harbor = " ++ toString remoteId))
        some (closeHarbor h id, none)
      else
        (dispatchQueue (h.setSlave id { h.s id with status := .header }) id).bind fun h =>
          if left.length = 0 then some (h, some left) else readMessage h id left

def socketTurn (h : Harbor) (id : Nat) (fd : Int) (buffer : List UInt8) :
    Option (Harbor × Option (List UInt8)) :=
  match (h.s id).status with
  | .handshake => readHandshake h id fd buffer
  | .header => readMessage h id buffer
  | .content => readContent h id buffer
  | .wait | .down => some (h, none)

def socketLoop : Nat → Harbor → Nat → Int → List UInt8 → Option Harbor
  | 0, _, _, _, _ => none
  | turns + 1, h, id, fd, buffer =>
      match socketTurn h id fd buffer with
      | none => none
      | some (h, none) => some h
      | some (h, some left) => socketLoop turns h id fd left

def harborId (h : Harbor) (fd : Int) : Nat :=
  ((List.range' 1 (remoteMax - 1)).find? fun i => (h.s i).fd = fd).getD 0

-- A turn reads a byte or moves on from a message, so that the turns are bounded.
def pushSocketData (h : Harbor) (fd : Int) (message : Buffer) : Option Harbor :=
  let id := harborId h fd
  if id = 0 then
    some ((h.did (.free message.id)).did
      (.error ("Invalid socket fd (" ++ toString fd ++ ") data")))
  else socketLoop (message.bytes.length + 3) h id fd message.bytes

def updateName (h : Harbor) (name : Name) (handle : UInt32) : Option Harbor :=
  let map := hashNode h.map name
  let queue := (hashSearch map name).bind (·.queue)
  let named := { h with map := hashWrite map name handle queue }
  match queue with
  | none => some named
  | some queue =>
      (dispatchNameQueue named name handle queue).map fun (h, queue) =>
        let h := releaseQueue h queue
        { h with map := hashWrite h.map name handle none }

def remoteSendHandle (h : Harbor) (source destination : UInt32) (type : UInt8) (session : UInt32)
    (msg : Buffer) : Harbor × Bool :=
  let harborId := destination >>> 24
  if harborId = h.id then
    (h.did (.send source destination (type.toUInt32 ||| ptypeTagDontcopy) session msg.bytes
      (some msg.id)), true)
  else
    let s := h.s harborId.toNat
    let header : Header :=
      { source := source
        destination := type.toUInt32 <<< 24 ||| destination &&& handleMask
        session := session }
    if s.fd = 0 ∨ s.status = .handshake then
      if s.status = .down then
        let h := h.did (.send destination source 7 0 [] none)
        (h.did (.error ("Drop message to harbor " ++ toString harborId ++ " from " ++ hex source ++
          " to " ++ hex destination ++ " (session = " ++ toString session.toInt32 ++ ", msgsz = " ++
          toString msg.bytes.length ++ ")")), false)
      else
        let queue := pushQueueMsg (s.queue.getD newQueue) { header := header, buffer := msg }
        (h.setSlave harborId.toNat { s with queue := some queue }, true)
    else (sendRemote h s.fd { header := header, buffer := msg }, false)

def remoteSendName (h : Harbor) (source : UInt32) (name : Name) (type : UInt8) (session : UInt32)
    (msg : Buffer) : Harbor × Bool :=
  let map := hashNode h.map name
  let value := ((hashSearch map name).map (·.value)).getD 0
  if value = 0 then
    let queue := ((hashSearch map name).bind (·.queue)).getD newQueue
    let header : Header :=
      { source := source, destination := type.toUInt32 <<< 24, session := session }
    let pushed := pushQueueMsg queue { header := header, buffer := msg }
    let query := [0x51, 0x20] ++ cString (List.ofFn name)
    ({ h with map := hashWrite map name value (some pushed) }.did
      (.send 0 h.slave 0 0 query none), true)
  else remoteSendHandle { h with map := map } source value type session msg

def handshake (h : Harbor) (id : Nat) : Harbor := h.did (.write (h.s id).fd [h.id.toUInt8] none)

def isSpace (byte : UInt8) : Bool := byte = 0x20 ∨ 0x09 ≤ byte ∧ byte ≤ 0x0d

def isDigit (byte : UInt8) : Bool := 0x30 ≤ byte ∧ byte ≤ 0x39

-- `%d` of `sscanf`: blanks, a sign and digits.
def scanInt (bytes : List UInt8) : Option (Int × List UInt8) :=
  let bytes := bytes.dropWhile isSpace
  let sign : Int := if bytes.head? = some 0x2d then -1 else 1
  let bytes := if bytes.head? = some 0x2d ∨ bytes.head? = some 0x2b then bytes.tail else bytes
  let digits := bytes.takeWhile isDigit
  if digits = [] then none
  else
    some (sign * digits.foldl (fun n digit => n * 10 + (digit.toNat - 0x30 : Nat)) 0,
      bytes.dropWhile isDigit)

-- `sscanf(buffer, "%d %d", &fd, &id)` with both set to 0 before.
def scanTwo (bytes : List UInt8) : Int × Int :=
  match scanInt bytes with
  | none => (0, 0)
  | some (first, left) =>
      match scanInt left with
      | none => (first, 0)
      | some (second, _) => (first, second)

def toName (bytes : List UInt8) : Name := fun i => bytes.getD i 0

-- The command `S` or `A` for a slot that is not connected.
def openLink (h : Harbor) (fd : Int) (id : Nat) (connect : Bool) : Option Harbor :=
  let h := (h.setSlave id { h.s id with fd := fd }).did (.start fd)
  let h := handshake h id
  if connect then some (h.setSlave id { h.s id with status := .handshake })
  else dispatchQueue (h.setSlave id { h.s id with status := .header }) id

-- With a single byte of `S` or `A` the `memcpy` has a negative length.
def harborCommand (h : Harbor) (msg : List UInt8) (source : UInt32) : Option Harbor :=
  let name := msg.drop 2
  match msg.head? with
  | some 0x4e =>
      if name.length = 0 ∨ globalNameLength ≤ name.length then
        some (h.did (.error ("Invalid global name " ++ text name)))
      else updateName h (toName name) source
  | some command =>
      if command = 0x53 ∨ command = 0x41 then
        let (fd, id) := scanTwo (cString name)
        if msg.length < 2 then none
        else if fd = 0 ∨ id ≤ 0 ∨ remoteMax ≤ id then
          some (h.did (.error ("Invalid command " ++ text [command] ++ " " ++ text name)))
        else if (h.s id.toNat).fd ≠ 0 then
          some (h.did (.error ("Harbor " ++ toString id ++ " alreay exist")))
        else openLink h fd id.toNat (command = 0x53)
      else some (h.did (.error ("Unknown command " ++ text msg)))
  | none => some (h.did (.error "Unknown command "))

def ptypeSocket : UInt32 := 6

structure RemoteType where
  toUInt8 : UInt8
  remote : toUInt8.toUInt32 ≠ ptypeSocket

def RemoteType.toUInt32 (type : RemoteType) : UInt32 := type.toUInt8.toUInt32

instance : Coe RemoteType UInt8 := ⟨RemoteType.toUInt8⟩

instance : OfNat RemoteType 10 := ⟨⟨10, by decide⟩⟩

-- The messages of `mainloop`: by type, a socket message, a text command or a remote
-- message on its way out, which is misread when its type is that of a socket message.
inductive Event where
  | data (fd : Int) (bytes : List UInt8)
  | closed (fd : Int)
  | connected (fd : Int)
  | socket (type : Nat)
  | command (msg : List UInt8) (source : UInt32)
  | remote (source handle : UInt32) (name : Name) (type : RemoteType) (session : UInt32)
      (message : List UInt8)
  | misread (name : Name)

-- `mainloop` looks at the type first, so that a remote message of type `PTYPE_SOCKET` is taken for a
-- `skynet_socket_message`: its type and its id are the first eight bytes of the name, and its
-- buffer is the handle and what stands behind it, which is no block.
def misread (h : Harbor) (name : Name) : Option Harbor :=
  let id := harborId h (word name 1).toInt32.toInt
  if word name 0 = 1 then none
  else if word name 0 = 2 then some h
  else if word name 0 = 3 ∨ word name 0 = 5 then
    if id ≠ 0 then some (reportHarborDown h id)
    else some (h.did (.error ("Unkown fd (" ++ toString (word name 1).toInt32.toInt ++ ") closed")))
  else some (h.did (.error "recv invalid socket message type 6"))

def mainloop (h : Harbor) : Event → Option Harbor
  | .data fd bytes =>
      let message : Buffer := { id := h.buffers, bytes := bytes }
      (pushSocketData { h with buffers := h.buffers + 1 } fd message).map
        (·.did (.free message.id))
  | .closed fd =>
      let id := harborId h fd
      if id ≠ 0 then some (reportHarborDown h id)
      else some (h.did (.error ("Unkown fd (" ++ toString fd ++ ") closed")))
  | .connected _ => some h
  | .socket _ => some (h.did (.error "recv invalid socket message type 6"))
  | .command msg source => harborCommand h msg source
  | .remote source handle name type session message =>
      let rmsg : Buffer := { id := h.buffers, bytes := message }
      let h := { h with buffers := h.buffers + 1 }
      let (h, kept) :=
        if handle = 0 then remoteSendName h source name type session rmsg
        else remoteSendHandle h source handle type session rmsg
      some (if kept then h else h.did (.free rmsg.id))
  | .misread name => misread { h with buffers := h.buffers + 1 } name

end Pskynet.Harbor
