import Mathlib.Logic.Function.Basic
import Mathlib.Tactic
import Pskynet.Shared.Transition

set_option autoImplicit false

namespace Pskynet.Socketchannel

structure Answer (S D : Type) where
  session : Option S
  ok : Bool
  data : D

inductive Chunk (S D : Type) where
  | part
  | last (answer : Answer S D)
  | bad

inductive Coroutine where
  | dispatch (k : Nat)
  | closer (k : Nat)
  deriving DecidableEq

structure Socket (S D : Type) where
  pooled : Bool
  connected : Bool
  buffer : List (Chunk S D)
  readRequired : Bool
  co : Option Coroutine
  closing : Option Coroutine

def Socket.opened {S D : Type} : Socket S D where
  pooled := true
  connected := true
  buffer := []
  readRequired := false
  co := none
  closing := none

-- The sockets by connection, and the coroutines that `skynet.wakeup` was called for.
structure Sockets (S D : Type) where
  pool : Nat → Socket S D
  awake : List Coroutine

inductive Read (S D : Type) where
  | chunk (chunk : Chunk S D)
  | failed
  | suspended

inductive Block where
  | returned (connected : Bool)
  | raised
  | suspended

namespace Sockets

variable {S D : Type}

def set (n : Sockets S D) (j : Nat) (so : Socket S D) : Sockets S D :=
  { n with pool := Function.update n.pool j so }

def wake (n : Sockets S D) (co : Coroutine) : Sockets S D :=
  if co ∈ n.awake then n else { n with awake := n.awake ++ [co] }

def wakeup (n : Sockets S D) (j : Nat) : Sockets S D :=
  match (n.pool j).co with
  | some co => (n.set j { n.pool j with co := none }).wake co
  | none => n

def wakeupClosing (n : Sockets S D) (j : Nat) : Sockets S D :=
  match (n.pool j).closing with
  | some co => n.wake co
  | none => n

def data (n : Sockets S D) (j : Nat) (chunk : Chunk S D) : Sockets S D :=
  let so := n.pool j
  if so.pooled then
    if so.readRequired then
      (n.set j { so with buffer := so.buffer ++ [chunk], readRequired := false }).wakeup j
    else n.set j { so with buffer := so.buffer ++ [chunk] }
  else n

def disconnect (n : Sockets S D) (j : Nat) : Sockets S D :=
  if (n.pool j).pooled then (n.set j { n.pool j with connected := false }).wakeup j else n

-- `socket.read` until it is suspended. The assertions of `suspend` are made after
-- `s.read_required` is written.
def read (n : Sockets S D) (j k : Nat) : Sockets S D × Read S D :=
  let so := n.pool j
  if so.pooled then
    match so.buffer with
    | chunk :: rest => (n.set j { so with buffer := rest }, .chunk chunk)
    | [] =>
        if so.connected && !so.readRequired then
          match so.co with
          | some _ => (n.set j { so with readRequired := true }, .failed)
          | none =>
              (n.set j { so with readRequired := true, co := some (.dispatch k) }, .suspended)
        else (n, .failed)
  else (n, .failed)

def resumeRead (n : Sockets S D) (j : Nat) : Sockets S D × Read S D :=
  let after := n.wakeupClosing j
  match (after.pool j).buffer with
  | chunk :: rest => (after.set j { after.pool j with buffer := rest }, .chunk chunk)
  | [] => (after, .failed)

def block (n : Sockets S D) (j k : Nat) : Sockets S D × Block :=
  let so := n.pool j
  if so.pooled && so.connected then
    if so.readRequired then (n, .raised)
    else
      match so.co with
      | some _ => (n.set j { so with readRequired := true }, .raised)
      | none =>
          (n.set j { so with readRequired := true, co := some (.dispatch k) }, .suspended)
  else (n, .returned false)

def resumeBlock (n : Sockets S D) (j : Nat) : Sockets S D × Block :=
  (n.wakeupClosing j, .returned (n.pool j).connected)

-- The end of `socket.close`, with `socket.shutdown`.
def finishClose (n : Sockets S D) (j : Nat) : Sockets S D :=
  n.set j { n.pool j with pooled := false, connected := false, buffer := [] }

-- `socket.close` by a coroutine until it waits or returns.
def close (n : Sockets S D) (j : Nat) (by_ : Coroutine) : Sockets S D × Bool :=
  let so := n.pool j
  if so.pooled then
    if so.connected then
      match so.co with
      | some _ =>
          if so.closing.isSome then (n, true) else (n.set j { so with closing := some by_ }, false)
      | none => (n.set j { so with co := some by_ }, false)
    else (n.finishClose j, true)
  else (n, true)

end Sockets

variable {S D : Type}

inductive Mode where
  | session
  | order
  deriving DecidableEq

structure Desc where
  mode : Mode
  auth : Bool

inductive Result (S D : Type) where
  | reply (connection : Nat) (answer : Answer S D)
  | socketError (connection : Nat)

inductive Phase where
  | forked
  | loop
  | read (j : Nat) (popped : Option (Nat × Option Nat))
  | reading (j : Nat) (popped : Option (Nat × Option Nat))
  | blocking (j : Nat)
  | closing (i j : Nat) (popped : Option (Nat × Option Nat))
  | ended
  deriving DecidableEq

inductive After where
  | nothing
  | wakeupAll
  | auth
  deriving DecidableEq

-- Nobody connects, a coroutine waits in `socket.open`, or it is in `__auth`, where `last` is its
-- last request.
inductive Connecting where
  | idle
  | opening
  | auth (last : Option Nat)

-- A channel. A request stands for its response function and for the coroutine that waits for the
-- reply; it is known by its place in `registered`, which has its connection and its session.
-- `delivered` are the results that were written, `replies` the replies that were read with their
-- connection and response function, and `replaced` the requests of which a later one took the session.
-- `shut` has for each failure of a connection the connection of the
-- socket that was closed because of it, and `given` the connections closed by `close` and
-- `changehost`.
structure Channel (S D : Type) where
  sock : Option Nat
  closed : Bool
  request : List Nat
  thread : List Nat
  sessions : List (S × Nat)
  connecting : Connecting
  connections : Nat
  net : Sockets S D
  dispatchers : Nat → Phase
  closers : Nat → Option After
  running : Option Nat
  registered : List (Nat × Option S)
  delivered : List (Nat × Result S D)
  replies : List (Nat × Option Nat × Answer S D)
  replaced : List Nat
  shut : List (Nat × Nat)
  given : List Nat

namespace Channel

def start : Channel S D where
  sock := none
  closed := false
  request := []
  thread := []
  sessions := []
  connecting := .idle
  connections := 0
  net := ⟨fun _ => { Socket.opened with pooled := false, connected := false }, []⟩
  dispatchers := fun _ => .ended
  closers := fun _ => none
  running := none
  registered := []
  delivered := []
  replies := []
  replaced := []
  shut := []
  given := []

def waiting (s : Channel S D) : List Nat := s.thread ++ s.sessions.map Prod.snd

def deliver (s : Channel S D) (co : Option Nat) (result : Result S D) : Channel S D :=
  { s with delivered := s.delivered ++ co.toList.map fun co => (co, result) }

def wakeupAll (mode : Mode) (s : Channel S D) (j : Nat) : Channel S D :=
  match mode with
  | .session =>
      { s with
        sessions := []
        delivered := s.delivered ++ s.sessions.map fun (_, co) => (co, .socketError j) }
  | .order =>
      { s with
        request := []
        thread := []
        delivered := s.delivered ++ s.thread.map fun co => (co, .socketError j) }

def setPhase (s : Channel S D) (k : Nat) (phase : Phase) : Channel S D :=
  { s with dispatchers := Function.update s.dispatchers k phase }

def goOn (s : Channel S D) (k : Nat) (phase : Phase) : Channel S D :=
  { s.setPhase k phase with running := some k }

def yield_ (s : Channel S D) (k : Nat) (phase : Phase) : Channel S D :=
  { s.setPhase k phase with running := none }

def afterFailure (mode : Mode) (s : Channel S D) (k j : Nat)
    (popped : Option (Nat × Option Nat)) : Channel S D :=
  ((s.deliver (popped.bind Prod.snd) (.socketError j)).wakeupAll mode j).goOn k .loop

-- A read on the socket of `j` fails in the dispatch coroutine of `k`.
def fail (mode : Mode) (s : Channel S D) (k j : Nat) (popped : Option (Nat × Option Nat)) :
    Channel S D :=
  match s.sock with
  | none => s.afterFailure mode k j popped
  | some i =>
      let (net, returned) := s.net.close i (.dispatch k)
      let shut := { s with sock := none, net := net, shut := s.shut ++ [(j, i)] }
      if returned then shut.afterFailure mode k j popped
      else shut.yield_ k (.closing i j popped)

variable [DecidableEq S]

def answered (mode : Mode) (s : Channel S D) (k j : Nat) (popped : Option (Nat × Option Nat))
    (answer : Answer S D) : Channel S D :=
  let got := { s with replies := s.replies ++ [(j, popped.map Prod.fst, answer)] }
  match mode with
  | .order => (got.deliver (popped.bind Prod.snd) (.reply j answer)).goOn k .loop
  | .session =>
      match answer.session with
      | none => s.fail mode k j popped
      | some session =>
          ({ got with sessions := s.sessions.filter (·.1 ≠ session) }.deliver
            (s.sessions.lookup session) (.reply j answer)).goOn k .loop

def afterRead (mode : Mode) (s : Channel S D) (k j : Nat) (popped : Option (Nat × Option Nat)) :
    Read S D → Channel S D
  | .chunk .part => s.goOn k (.read j popped)
  | .chunk (.last answer) => s.answered mode k j popped answer
  | .chunk .bad | .failed => s.fail mode k j popped
  | .suspended => s.yield_ k (.reading j popped)

def read (mode : Mode) (s : Channel S D) (k j : Nat) (popped : Option (Nat × Option Nat)) :
    Channel S D :=
  let (net, result) := s.net.read j k
  { s with net := net }.afterRead mode k j popped result

def afterBlock (mode : Mode) (s : Channel S D) (k j : Nat) : Block → Channel S D
  | .returned true => s.goOn k .loop
  | .returned false => s.fail mode k j none
  | .raised => s.yield_ k .ended
  | .suspended => s.yield_ k (.blocking j)

def loop (mode : Mode) (s : Channel S D) (k : Nat) : Channel S D :=
  match s.sock with
  | none => s.yield_ k .ended
  | some j =>
      match mode with
      | .session => s.read mode k j none
      | .order =>
          let popped := { s with request := s.request.tail, thread := s.thread.tail }
          match s.request.head? with
          | some func => popped.read mode k j (some (func, s.thread.head?))
          | none =>
              let (net, result) := s.net.block j k
              { popped with net := net }.afterBlock mode k j result

def resume (mode : Mode) (s : Channel S D) (k : Nat) : Channel S D :=
  match s.dispatchers k with
  | .reading j popped =>
      let (net, result) := s.net.resumeRead j
      { s with net := net }.afterRead mode k j popped result
  | .blocking j =>
      let (net, result) := s.net.resumeBlock j
      { s with net := net }.afterBlock mode k j result
  | .closing i j popped => { s with net := s.net.finishClose i }.afterFailure mode k j popped
  | _ => s

def afterClose (mode : Mode) (s : Channel S D) (j : Nat) : After → Channel S D
  | .nothing => s
  | .wakeupAll => s.wakeupAll mode j
  | .auth => { s with connecting := .idle }

def closeChannelSocket (mode : Mode) (s : Channel S D) (after : After) : Channel S D :=
  match s.sock with
  | none => s.afterClose mode 0 after
  | some j =>
      let (net, returned) := s.net.close j (.closer j)
      let shut := { s with sock := none, net := net }
      if returned then shut.afterClose mode j after
      else { shut with closers := Function.update s.closers j (some after) }

-- `check_connection` is true in the coroutine. The coroutine in `__auth` has no request.
def ready (s : Channel S D) : Bool :=
  match s.connecting with
  | .auth (some last) => s.delivered.any fun entry => entry.1 == last
  | .auth none | .idle | .opening => true

def pushResponse (mode : Mode) (s : Channel S D) (j : Nat) (response : Option S) : Channel S D :=
  let co := s.registered.length
  let pushed := { s with
    registered := s.registered ++ [(j, response)]
    connecting := match s.connecting with
      | .auth _ => .auth (some co)
      | other => other }
  match mode with
  | .order => { pushed with request := s.request ++ [co], thread := s.thread ++ [co] }
  | .session =>
      match response with
      | some session =>
          { pushed with
            sessions := s.sessions.filter (·.1 ≠ session) ++ [(session, co)]
            replaced := s.replaced ++ (s.sessions.filter (·.1 = session)).map Prod.snd }
      | none => pushed

-- `connect_once` from where `socket.open` returns.
def established (desc : Desc) (s : Channel S D) : Channel S D :=
  { s with
    sock := some s.connections
    connections := s.connections + 1
    net := s.net.set s.connections .opened
    dispatchers := Function.update s.dispatchers s.connections .forked
    connecting := if desc.auth then .auth none else .idle }

def giveUp (mode : Mode) (s : Channel S D) : Channel S D :=
  { s.closeChannelSocket mode .nothing with given := s.given ++ s.sock.toList }

end Channel

inductive Action (S D : Type) where
  | connect
  | reopen
  | opened
  | notOpened
  | authEnd (ok : Bool)
  | request (response : Option S)
  | writeFails
  | close
  | changehost
  | data (j : Nat) (chunk : Chunk S D)
  | disconnect (j : Nat)
  | start (k : Nat)
  | loop (k : Nat)
  | resume (co : Coroutine)

variable [DecidableEq S]

open Channel

def turn (desc : Desc) (s : Channel S D) (k : Nat) : Action S D → Option (Channel S D)
  | .loop k' =>
      if k = k' then
        match s.dispatchers k with
        | .loop => some (s.loop desc.mode k)
        | .read j popped => some (s.read desc.mode k j popped)
        | _ => none
      else none
  | _ => none

def act (desc : Desc) (s : Channel S D) : Action S D → Option (Channel S D)
  | .loop _ => none
  -- `block_connect` without a connection, when no other coroutine connects.
  | .connect =>
      match s.connecting, s.sock with
      | .idle, none => if s.closed then none else some { s with connecting := .opening }
      | _, _ => none
  | .reopen => some { s with closed := false }
  | .opened =>
      match s.connecting with
      | .opening => some (s.established desc)
      | _ => none
  | .notOpened =>
      match s.connecting with
      | .opening => some { s with connecting := .idle }
      | _ => none
  | .authEnd ok =>
      match s.connecting with
      | .auth _ =>
          if s.ready ∧ s.closers (s.connections - 1) ∉ [some .wakeupAll, some .auth] then
            if ok then
              -- `auth` may change the host.
              some { s with
                connecting := if s.sock.isNone ∧ ¬ s.closed then .opening else .idle }
            else some (s.closeChannelSocket desc.mode .auth)
          else none
      | _ => none
  | .request response =>
      match s.sock with
      | some j =>
          if s.ready ∧ response.isSome = (desc.mode = .session) then
            some (s.pushResponse desc.mode j response)
          else none
      | none => none
  | .writeFails =>
      if s.sock.isSome ∧ s.ready then some (s.closeChannelSocket desc.mode .wakeupAll) else none
  | .close => if s.closed then some s else some ({ s with closed := true }.giveUp desc.mode)
  | .changehost => if s.closed then some s else some (s.giveUp desc.mode)
  | .data j chunk =>
      if (s.net.pool j).connected then some { s with net := s.net.data j chunk } else none
  | .disconnect j =>
      if (s.net.pool j).connected then some { s with net := s.net.disconnect j } else none
  | .start k => if s.dispatchers k = .forked then some (s.goOn k .loop) else none
  | .resume co =>
      if co ∈ s.net.awake then
        let woken := { s with net := { s.net with awake := s.net.awake.erase co } }
        match co with
        | .dispatch k => some (woken.resume desc.mode k)
        | .closer j =>
            match s.closers j with
            | some after =>
                some ({ woken with
                  net := woken.net.finishClose j
                  closers := Function.update s.closers j none }.afterClose desc.mode j after)
            | none => some woken
      else none

def step (desc : Desc) (s : Channel S D) (action : Action S D) : Option (Channel S D) :=
  match s.running with
  | some k => turn desc s k action
  | none => act desc s action

end Pskynet.Socketchannel
