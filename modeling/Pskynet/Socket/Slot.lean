import Mathlib.Tactic

set_option autoImplicit false

namespace Pskynet.Socket

inductive SocketType where
  | invalid
  | reserve
  | plisten
  | listen
  | connecting
  | connected
  | halfclose
  | paccept
  | bind
  deriving DecidableEq

inductive Protocol where
  | tcp
  | udp
  | udpV6
  deriving DecidableEq

def Protocol.number : Protocol → UInt8
  | .tcp => 0
  | .udp => 1
  | .udpV6 => 2

inductive Priority where
  | high
  | low
  deriving DecidableEq

-- The codes `SN_SOCKET_...` that `ss->cb` is called with.
inductive Code where
  | data
  | close
  | opened
  | accept
  | error
  | exit
  deriving DecidableEq

inductive Payload where
  | null
  | text (text : String)
  | bytes (data : List UInt8)

structure Message where
  id : Int32
  opaqueValue : Nat
  ud : Int
  data : Payload

-- A call of `ss->cb`. There is no result when no callee has written to the variable.
structure Event where
  code : Code
  result : Option Message

-- The bytes of a `send_object` with the address it goes to, and the priority of the request.
structure WriteBuffer where
  priority : Priority
  data : List UInt8
  udpAddress : List UInt8
  deriving DecidableEq

def bytes (list : List WriteBuffer) : Nat := (list.map fun buffer => buffer.data.length).sum

-- The `uv_tcp_t`, `uv_udp_t` or `uv_tty_t` of a slot: not there before it is initialised and after
-- `close_cb`, and closing from `uv_close` to `close_cb`.
inductive Handle where
  | absent
  | opened
  | closing
  deriving DecidableEq

-- A `uv_write_t` or a `uv_udp_send_t` in flight; `req->data` is the list it was made for.
structure WriteRequest where
  udp : Bool
  list : Priority
  deriving DecidableEq

-- `sn_socket`. From `handle` on the fields are what libuv knows about the handle of the slot, and
-- from `closeCalled` on they record what happened: whether `uv_close` was called since the handle
-- was initialised, whether a call was made on a closing handle, whether the assertion of
-- `force_close` failed, whether the command that opens the reserved slot is still to come, which
-- buffers were given to the socket and to libuv, and how many bytes libuv has written.
structure SnSocket where
  opaqueValue : Nat
  high : List WriteBuffer
  low : List WriteBuffer
  wbSize : Nat
  protocol : Protocol
  id : Int32
  type : SocketType
  udpAddress : List UInt8
  write : Bool
  handle : Handle
  reading : Bool
  listening : Bool
  connecting : Bool
  requests : List WriteRequest
  closeCalled : Bool
  misused : Bool
  asserted : Bool
  promised : Bool
  submitted : List WriteBuffer
  handed : List WriteBuffer
  completed : Nat

-- What the calls of libuv return in one step; `true` stands for 0.
structure Results where
  address : Bool
  opens : Bool
  reads : Bool
  connects : Bool
  binds : Bool
  listens : Bool
  writes : Bool
  accepts : Bool

inductive Command where
  | start (id : Int32) (opaqueValue : Nat)
  | bind (id : Int32) (opaqueValue : Nat)
  | listen (id : Int32) (opaqueValue : Nat)
  | close (id : Int32) (opaqueValue : Nat)
  | connect (id : Int32) (opaqueValue : Nat)
  | exit
  | send (id : Int32) (priority : Priority) (data : List UInt8)
  | sendUdp (id : Int32) (address data : List UInt8)
  | setUdp (id : Int32) (address : List UInt8)
  | setopt (id : Int32)
  | udp (id : Int32) (v6 : Bool) (opaqueValue : Nat)

def Command.id : Command → Int32
  | .start id _ | .bind id _ | .listen id _ | .close id _ | .connect id _ | .send id _ _
  | .sendUdp id _ _ | .setUdp id _ | .setopt id | .udp id _ _ => id
  | .exit => 0

def Command.sends : Command → Bool
  | .send _ _ _ | .sendUdp _ _ _ => true
  | _ => false

namespace SnSocket

def list (s : SnSocket) : Priority → List WriteBuffer
  | .high => s.high
  | .low => s.low

def setList (s : SnSocket) (which : Priority) (buffers : List WriteBuffer) : SnSocket :=
  { s with
    high := if which = .high then buffers else s.high
    low := if which = .low then buffers else s.low }

def missing (s : SnSocket) (id : Int32) : Bool := s.type = .invalid || s.id ≠ id

def sendBufferEmpty (s : SnSocket) : Bool := s.high.isEmpty && s.low.isEmpty

-- `uv_close` on a closing handle does nothing but fail an assertion of libuv.
def uvClose (s : SnSocket) : SnSocket :=
  { s with
    handle := if s.handle = .opened then .closing else s.handle
    reading := false
    listening := false
    closeCalled := true
    misused := s.misused || decide (s.handle = .closing) }

def uvCall (s : SnSocket) : SnSocket :=
  { s with misused := s.misused || decide (s.handle = .closing) }

def uvReadStart (s : SnSocket) (reads : Bool) : SnSocket :=
  { s.uvCall with reading := s.reading || reads }

def uvListen (s : SnSocket) (listens : Bool) : SnSocket :=
  { s.uvCall with listening := s.listening || listens }

def uvWrite (s : SnSocket) (udp : Bool) (which : Priority) (buffer : WriteBuffer) (writes : Bool) :
    SnSocket :=
  { s.uvCall with
    requests := if writes then s.requests ++ [{ udp := udp, list := which }] else s.requests
    handed := if writes then s.handed ++ [buffer] else s.handed }

-- There is no result when the assertion fails.
def forceClose (s : SnSocket) : SnSocket × Option Message :=
  let result := { id := s.id, opaqueValue := s.opaqueValue, ud := 0, data := .null }
  if s.type = .invalid then (s, some result)
  else if s.type = .reserve then ({ s with asserted := true }, none)
  else (uvClose { s with high := [], low := [] }, some result)

def closeAndReport (s : SnSocket) (code : Code) : SnSocket × List Event :=
  match s.forceClose with
  | (s, some result) => (s, [{ code := code, result := some result }])
  | (s, none) => (s, [])

-- `none` is a failed assertion, and `false` the return of `NULL`. With a descriptor of one of the
-- standard streams `opens` is the result of `uv_tty_init`, else that of `uv_tcp_open`.
def newFd (s : SnSocket) (id : Int32) (protocol : Protocol) (opaqueValue : Nat) (add : Bool)
    (opens reads : Bool) : Option (SnSocket × Bool) :=
  if s.type ≠ .reserve then none
  else
    let s :=
      { s with id := id, handle := .opened, reading := false, listening := false, closeCalled := false }
    if protocol = .tcp ∧ ¬opens then some (s.uvClose, false)
    else
      let s := if protocol = .tcp ∧ add then s.uvReadStart reads else s
      if protocol = .tcp ∧ add ∧ ¬reads then some (s.uvClose, false)
      else if ¬s.sendBufferEmpty then none
      else
        some
          ({ s with
              protocol := protocol
              write := false
              opaqueValue := opaqueValue
              wbSize := 0
              submitted := []
              handed := []
              completed := 0 },
            true)

-- `true` stands for `SN_SOCKET_CLOSE`, and `false` for -1.
def sendListTcp (s : SnSocket) (which : Priority) (writes : Bool) : SnSocket × Bool :=
  if s.write then (s, false)
  else
    match s.list which with
    | [] => (s, false)
    | buffer :: _ => ({ s.uvWrite false which buffer writes with write := writes }, !writes)

def sendListUdp (s : SnSocket) (which : Priority) (writes : Bool) : SnSocket × Bool :=
  match s.list which with
  | [] => (s, false)
  | buffer :: _ => (s.uvWrite true which buffer writes, !writes)

def sendList (s : SnSocket) (which : Priority) (writes : Bool) : SnSocket × Bool :=
  if s.protocol = .tcp then s.sendListTcp which writes else s.sendListUdp which writes

def sendBuffer (s : SnSocket) (writes : Bool) : SnSocket × Bool :=
  match s.sendList .high writes with
  | (s, true) => (s, true)
  | (s, false) =>
      if s.high = [] ∧ s.low ≠ [] then s.sendList .low writes else (s, false)

-- `append_sendbuffer_`, with the change of `wb_size` that all its callers make.
def append (s : SnSocket) (which : Priority) (buffer : WriteBuffer) : SnSocket :=
  let s := s.setList which (s.list which ++ [buffer])
  { s with
    wbSize := s.wbSize + buffer.data.length
    submitted := s.submitted ++ [buffer] }

def appendSendbufferUdp (s : SnSocket) (priority : Priority) (data : List UInt8)
    (address : List UInt8) : SnSocket :=
  s.append priority { priority := priority, data := data, udpAddress := address }

def reportRefusal : SnSocket × Bool → SnSocket × List Event
  | (s, true) => (s, [{ code := .close, result := none }])
  | (s, false) => (s, [])

def appendSendbuffer (s : SnSocket) (priority : Priority) (data : List UInt8) (writes : Bool) :
    SnSocket × List Event :=
  let s := s.append .high { priority := priority, data := data, udpAddress := [] }
  if s.write then (s, []) else reportRefusal (s.sendBuffer writes)

def appendSendbufferLow (s : SnSocket) (data : List UInt8) : SnSocket :=
  s.append .low { priority := .low, data := data, udpAddress := [] }

def sendSocket (s : SnSocket) (id : Int32) (priority : Priority) (address : Option (List UInt8))
    (data : List UInt8) (u : Results) : Option (SnSocket × List Event) :=
  if s.missing id ∨ s.type = .halfclose then some (s, [])
  else if s.type = .plisten ∨ s.type = .listen then none
  else if s.sendBufferEmpty ∧ s.type = .connected then
    if s.protocol = .tcp then some (s.appendSendbuffer priority data u.writes)
    else some (s.appendSendbufferUdp priority data (address.getD s.udpAddress), [])
  else
    if s.protocol = .tcp then
      if priority = .low then some (s.appendSendbufferLow data, [])
      else some (s.appendSendbuffer priority data u.writes)
    else some (s.appendSendbufferUdp priority data (address.getD s.udpAddress), [])

def openSocket (s : SnSocket) (id : Int32) (opaqueValue : Nat) (u : Results) :
    Option (SnSocket × List Event) :=
  let failed :=
    [{ code := .error, result := some { id := id, opaqueValue := opaqueValue, ud := 0, data := .null } }]
  if ¬u.address then some ({ s with type := .invalid }, failed)
  else
    match s.newFd id .tcp opaqueValue false true u.reads with
    | none => none
    | some (s, false) => some ({ s with type := .invalid }, failed)
    | some (s, true) =>
        if u.connects then some ({ s with type := .connecting, connecting := true }, [])
        else some ({ s with type := .invalid }, failed)

-- The `SOCKET_ERROR` that a failure returns is -1, so that nothing is reported.
def listenSocket (s : SnSocket) (id : Int32) (opaqueValue : Nat) (u : Results) :
    Option (SnSocket × List Event) :=
  match s.newFd id .tcp opaqueValue false true u.reads with
  | none => none
  | some (s, false) => some ({ s with type := .invalid }, [])
  | some (s, true) =>
      if u.binds then some ({ s with type := .plisten }, []) else some (s.uvClose, [])

def closeSocket (s : SnSocket) (id : Int32) (opaqueValue : Nat) (u : Results) : SnSocket × List Event :=
  let result := { id := id, opaqueValue := opaqueValue, ud := 0, data := .null }
  if s.missing id then (s, [{ code := .close, result := some result }])
  else
    match if s.sendBufferEmpty then (s, false) else s.sendBuffer u.writes with
    | (s, true) => (s, [{ code := .close, result := none }])
    | (s, false) =>
        if s.sendBufferEmpty then
          match s.forceClose with
          | (s, some _) => (s, [{ code := .close, result := some result }])
          | (s, none) => (s, [])
        else ({ s with type := .halfclose }, [])

def bindSocket (s : SnSocket) (id : Int32) (opaqueValue : Nat) (u : Results) :
    Option (SnSocket × List Event) :=
  match s.newFd id .tcp opaqueValue true u.opens u.reads with
  | none => none
  | some (s, false) =>
      some (s, [{ code := .error, result := some ⟨id, opaqueValue, 0, .null⟩ }])
  | some (s, true) =>
      some ({ s with type := .bind },
        [{ code := .opened, result := some ⟨id, opaqueValue, 0, .text "binding"⟩ }])

def startSocket (s : SnSocket) (id : Int32) (opaqueValue : Nat) (u : Results) : SnSocket × List Event :=
  if s.missing id then (s, [{ code := .error, result := some ⟨id, opaqueValue, 0, .null⟩ }])
  else
    match s.type with
    | .paccept =>
        if u.reads then
          ({ s.uvReadStart true with type := .connected, opaqueValue := opaqueValue },
            [{ code := .opened, result := some ⟨id, opaqueValue, 0, .text "start"⟩ }])
        else (s.uvReadStart false).closeAndReport .error
    | .connected =>
        ({ s with opaqueValue := opaqueValue },
          [{ code := .opened, result := some ⟨id, opaqueValue, 0, .text "transfer"⟩ }])
    | .plisten =>
        if u.listens then
          ({ s.uvListen true with type := .listen, opaqueValue := opaqueValue },
            [{ code := .opened, result := some ⟨id, opaqueValue, 0, .text "start"⟩ }])
        else (s.uvListen false).closeAndReport .error
    | _ => (s, [])

def addUdpSocket (s : SnSocket) (id : Int32) (v6 : Bool) (opaqueValue : Nat) (u : Results) :
    Option (SnSocket × List Event) :=
  match s.newFd id (if v6 then .udpV6 else .udp) opaqueValue true u.opens u.reads with
  | some (s, true) =>
      some ({ s with type := .connected, udpAddress := List.replicate 19 0 }, [])
  -- A `NULL` would be written to.
  | _ => none

def setUdpAddress (s : SnSocket) (id : Int32) (address : List UInt8) : SnSocket × List Event :=
  if s.missing id then (s, [])
  else if address.head? ≠ some s.protocol.number then
    (s, [{ code := .error, result := some ⟨s.id, s.opaqueValue, 0, .null⟩ }])
  else
    let size := if s.protocol = .udp then 7 else 19
    ({ s with udpAddress := address.take size ++ s.udpAddress.drop size }, [])

-- Only the call that has reserved an id sends one of `O`, `L`, `B` and `U` for it, and only once.
def opening (s : SnSocket) (id : Int32) (go : SnSocket → Option (SnSocket × List Event)) :
    Option (SnSocket × List Event) :=
  if s.promised ∧ s.id = id then go { s with promised := false } else none

def ctrlCmd (s : SnSocket) (c : Command) (u : Results) : Option (SnSocket × List Event) :=
  match c with
  | .start id opaqueValue => some (s.startSocket id opaqueValue u)
  | .bind id opaqueValue => s.opening id fun s => s.bindSocket id opaqueValue u
  | .listen id opaqueValue => s.opening id fun s => s.listenSocket id opaqueValue u
  | .close id opaqueValue => some (s.closeSocket id opaqueValue u)
  | .connect id opaqueValue => s.opening id fun s => s.openSocket id opaqueValue u
  | .exit => some (s, [{ code := .exit, result := some ⟨0, 0, 0, .null⟩ }])
  | .send id priority data => s.sendSocket id priority none data u
  | .sendUdp id address data => s.sendSocket id .high (some address) data u
  | .setUdp id address => some (s.setUdpAddress id address)
  | .setopt _ => some (s, [])
  | .udp id v6 opaqueValue => s.opening id fun s => s.addUdpSocket id v6 opaqueValue u

end SnSocket

inductive Callback where
  | read (received : Option (List UInt8))
  | connected (success : Bool) (peer : Payload)
  | sent (success : Bool)
  | connection
  | closed

namespace SnSocket

-- `read_cb`, with the bytes that came or an error.
def read (s : SnSocket) (received : Option (List UInt8)) : Option (SnSocket × List Event) :=
  if s.handle = .opened ∧ s.reading then
    match received with
    | none => some ({ s with reading := false }.closeAndReport .error)
    | some [] => some (s, [])
    | some data =>
        some (s,
          [{ code := .data, result := some ⟨s.id, s.opaqueValue, data.length, .bytes data⟩ }])
  else none

def connected (s : SnSocket) (success : Bool) (peer : Payload) (u : Results) :
    Option (SnSocket × List Event) :=
  if s.connecting ∧ (success → s.handle = .opened) then
    let s := { s with connecting := false }
    if ¬success then some (s.closeAndReport .error)
    else if ¬u.reads then some ((s.uvReadStart false).closeAndReport .error)
    else
      some ({ s.uvReadStart true with type := .connected },
        [{ code := .opened, result := some ⟨s.id, s.opaqueValue, 0, peer⟩ }])
  else none

-- `write_cb_`. The list of the request can be empty after `force_close`, and then a `NULL` is read.
def written (s : SnSocket) (which : Priority) (success : Bool) (u : Results) :
    Option (SnSocket × List Event) :=
  let s := { s with write := false }
  if ¬success then some (s, [{ code := .close, result := none }])
  else
    match s.list which with
    | [] => none
    | buffer :: rest =>
        let s := { s.setList which rest with completed := s.completed + buffer.data.length }
        some (reportRefusal (s.sendListTcp which u.writes))

def udpSent (s : SnSocket) (which : Priority) (success : Bool) (u : Results) :
    Option (SnSocket × List Event) :=
  if ¬success then some (s, [])
  else
    match s.list which with
    | [] => none
    | buffer :: rest =>
        let s := { s.setList which rest with completed := s.completed + buffer.data.length }
        some ((s.sendListUdp which u.writes).1, [])

def sent (s : SnSocket) (success : Bool) (u : Results) : Option (SnSocket × List Event) :=
  match s.requests with
  | [] => none
  | request :: rest =>
      let s := { s with requests := rest }
      if request.udp then s.udpSent request.list success u else s.written request.list success u

def connectionFailed (s : SnSocket) : Option (SnSocket × List Event) :=
  if s.handle = .opened ∧ s.listening then some (s.closeAndReport .error) else none

-- `close_cb`, which libuv calls after the callbacks of all requests.
def closed (s : SnSocket) : Option (SnSocket × List Event) :=
  if s.handle = .closing ∧ s.requests = [] ∧ ¬s.connecting then
    some ({ s with type := .invalid, handle := .absent }, [])
  else none

def callback (s : SnSocket) (k : Callback) (u : Results) : Option (SnSocket × List Event) :=
  match k with
  | .read received => s.read received
  | .connected success peer => s.connected success peer u
  | .sent success => s.sent success u
  | .connection => s.connectionFailed
  | .closed => s.closed

def reserve (s : SnSocket) (id : Int32) (promised : Bool) : SnSocket :=
  { s with type := .reserve, id := id, promised := promised, closeCalled := false }

def accepted (s : SnSocket) (id : Int32) (opaqueValue : Nat) (u : Results) :
    Option (SnSocket × Bool) :=
  match s.newFd id .tcp opaqueValue false true u.reads with
  | none => none
  | some (s, false) => some (s, false)
  | some (s, true) =>
      if u.accepts then some ({ s with type := .paccept }, true) else some (s.uvClose, false)

end SnSocket

end Pskynet.Socket
