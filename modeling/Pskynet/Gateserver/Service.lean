import Pskynet.Netpack.Reassembly
import Pskynet.Shared.Transition

set_option autoImplicit false

namespace Pskynet.Gateserver

open Netpack

-- What is left to do in a coroutine when the handler it has called returns. A coroutine of the
-- handler's own has nothing left then.
inductive Code where
  | dispatchQueue
  | popFrom (queue : Nat)
  | popRest
  | closeFd (fd : Int)
  | finish
  deriving DecidableEq

-- The service waits for a message, runs a coroutine (in a handler or not), or chooses the next
-- coroutine after one has been suspended or has ended.
inductive Mode where
  | idle
  | running (handler : Bool) (code : Code)
  | switching
  deriving DecidableEq

-- `userdata` are the queues that `netpack` has made; `queue` is the index of one of them.
-- `received` and `passed` are the packets that `filter` found and that `dispatch_msg` got.
structure Gate where
  maxclient : Int
  disconnect : Bool
  error : Bool
  connection : Int → Option Bool
  clientNumber : Int
  userdata : List Queue
  queue : Option Nat
  forkQueue : List Code
  suspended : List Code
  mode : Mode
  received : List Pack
  passed : List Pack

def Gate.start (maxclient : Int) (disconnect error : Bool) : Gate where
  maxclient := maxclient
  disconnect := disconnect
  error := error
  connection := fun _ => none
  clientNumber := 0
  userdata := []
  queue := none
  forkQueue := []
  suspended := []
  mode := .idle
  received := []
  passed := []

def Gate.current (g : Gate) : Option Queue := g.queue.bind fun id => g.userdata[id]?

def Gate.pending (g : Gate) : List Pack := (getQueue g.current).ring.contents

-- What `expand_queue` leaves of the old queue.
def emptied (q : Queue) : Queue where
  ring :=
    { cap := q.ring.cap
      head := 0
      tail := 0
      data := q.ring.data
      head_lt := Nat.zero_lt_of_lt q.ring.head_lt
      tail_lt := Nat.zero_lt_of_lt q.ring.head_lt }
  hash := fun _ => []

-- `netpack.filter(queue, msg, sz)`, and the assignment to `queue` that follows it. A queue that
-- is expanded, and no other, gets a new capacity; it is a new userdata then.
def Gate.filter (g : Gate) (msg : SocketMessage) : Gate × Result :=
  match lfilter g.current msg with
  | (none, result) => (g, result)
  | (some q, result) =>
      match g.queue with
      | none => ({ g with userdata := g.userdata ++ [q], queue := some g.userdata.length }, result)
      | some id =>
          let old := getQueue g.current
          if old.ring.cap = q.ring.cap then ({ g with userdata := g.userdata.set id q }, result)
          else
            ({ g with
              userdata := g.userdata.set id (emptied old) ++ [q]
              queue := some g.userdata.length }, result)

def Gate.pop (g : Gate) (id : Nat) : Option (Pack × Gate) :=
  (lpop g.userdata[id]?).map fun (pack, q) => (pack, { g with userdata := g.userdata.set id q })

def Gate.dispatchMsg (g : Gate) (pack : Pack) (code : Code) : Gate :=
  { g with
    passed := g.passed ++ [pack]
    mode := .running (g.connection pack.id = some true) code }

def Gate.popLoop (g : Gate) (id : Nat) : Gate :=
  match g.pop id with
  | none => { g with mode := .switching }
  | some (pack, g) => g.dispatchMsg pack (.popFrom id)

def Gate.run (g : Gate) : Code → Gate
  | .dispatchQueue =>
      match g.queue.bind g.pop with
      | none => { g with mode := .switching }
      | some (pack, g) =>
          let g := { g with forkQueue := g.forkQueue ++ [Code.dispatchQueue] }
          g.dispatchMsg pack .popRest
  | .popRest =>
      match g.queue with
      | none => { g with mode := .switching }
      | some id => g.popLoop id
  | .popFrom id => g.popLoop id
  | .closeFd fd =>
      match g.connection fd with
      | none => { g with mode := .switching }
      | some _ =>
          { g with
            connection := Function.update g.connection fd none
            clientNumber := g.clientNumber - 1
            mode := .switching }
  | .finish => { g with mode := .switching }

def found (before after : List Pack) : Result → List Pack
  | .data fd buffer size => [{ id := fd, size := size, buffer := buffer }]
  | _ => after.drop before.length

def Gate.receive (g : Gate) (msg : SocketMessage) : Gate :=
  let (after, result) := g.filter msg
  let after := { after with received := g.received ++ found g.pending after.pending result }
  match result with
  | .nothing => { after with mode := .switching }
  | .data fd buffer size => after.dispatchMsg { id := fd, size := size, buffer := buffer } .finish
  | .more => { after with mode := .running false .dispatchQueue }
  | .opened fd _ =>
      if after.maxclient ≤ after.clientNumber then { after with mode := .switching }
      else
        { after with
          connection := Function.update after.connection fd (some true)
          clientNumber := after.clientNumber + 1
          mode := .running true .finish }
  | .closed fd => { after with mode := .running after.disconnect (.closeFd fd) }
  | .error fd _ => { after with mode := .running after.error (.closeFd fd) }

-- A coroutine that runs goes on where its handler returns. A handler may also raise an error,
-- wait, fork and close a client. Between two coroutines any one that waits may be woken up, and
-- any that is forked may begin; the message is done when none is left in `fork_queue`.
inductive Action where
  | receive (msg : SocketMessage)
  | command
  | response (code : Code)
  | advance
  | raise
  | wait
  | fork
  | closeclient (fd : Int)
  | wakeup (code : Code)
  | forked (code : Code)
  | done

def step (g : Gate) : Action → Option Gate
  | .receive msg => if g.mode = .idle then some (g.receive msg) else none
  | .command => if g.mode = .idle then some { g with mode := .running true .finish } else none
  | .response code =>
      if g.mode = .idle ∧ code ∈ g.suspended then
        some { g with suspended := g.suspended.erase code, mode := .running true code }
      else none
  | .advance =>
      match g.mode with
      | .running _ code => some (g.run code)
      | _ => none
  | .raise =>
      match g.mode with
      | .running true _ => some { g with mode := .switching }
      | _ => none
  | .wait =>
      match g.mode with
      | .running true code => some { g with suspended := g.suspended ++ [code], mode := .switching }
      | _ => none
  | .fork =>
      match g.mode with
      | .running true _ => some { g with forkQueue := g.forkQueue ++ [.finish] }
      | _ => none
  | .closeclient fd =>
      match g.mode with
      | .running true _ =>
          some (if g.connection fd = some true then
            { g with connection := Function.update g.connection fd (some false) } else g)
      | _ => none
  | .wakeup code =>
      if g.mode = .switching ∧ code ∈ g.suspended then
        some { g with suspended := g.suspended.erase code, mode := .running true code }
      else none
  | .forked code =>
      if g.mode = .switching ∧ code ∈ g.forkQueue then
        some { g with
          forkQueue := g.forkQueue.erase code
          mode := .running (code = .finish) code }
      else none
  | .done => if g.mode = .switching ∧ g.forkQueue = [] then some { g with mode := .idle } else none

end Pskynet.Gateserver
