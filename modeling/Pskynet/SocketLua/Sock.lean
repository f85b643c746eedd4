import Mathlib.Data.List.Basic
import Mathlib.Tactic
import Pskynet.Shared.Search
import Pskynet.Shared.Transition

set_option autoImplicit false

namespace Pskynet.SocketLua

-- `driver.readline` finds one or two bytes however they came.
@[ext] structure Separator where
  bytes : List UInt8
  filled : bytes ≠ []
  short : bytes.length ≤ 2

instance : DecidableEq Separator := fun _ _ => decidable_of_iff _ Separator.ext_iff.symm

inductive Required where
  | nothing
  | size (n : Nat)
  | all
  | line (sep : Separator)
  deriving DecidableEq

-- `socket.read` without and with a size, `socket.readall`, `socket.readline`, `socket.block`, and
-- `socket.close` of the coroutine that reads
inductive Call where
  | some_
  | size (n : Nat)
  | all
  | line (sep : Separator)
  | block
  | close
  deriving DecidableEq

-- What a call returns. `ends` is `false` with the bytes that were left, and `missing` the nil of
-- `driver.readline`; `raised` is a failed assertion.
inductive Result where
  | data (bytes : List UInt8)
  | line (bytes : List UInt8) (sep : Separator)
  | ends (bytes : List UInt8)
  | missing
  | unblocked (connected : Bool)
  | closed
  | raised
  deriving DecidableEq

def Result.rest (bytes : List UInt8) : Result := if bytes = [] then .ends [] else .data bytes

inductive Who where
  | reader
  | closer
  deriving DecidableEq

-- `socket.close` waits for the coroutine that reads, or for the end of the connection.
inductive Closer where
  | idle
  | behind
  | suspended
  | done
  deriving DecidableEq

-- A TCP socket with a coroutine that reads it and another one that closes it. `co` is who is
-- suspended on it, and `woken` who is to run before the next message. The driver's buffer is its
-- stream of bytes. `received` and `results` are the past: what has come, and what was given to the
-- calls.
structure Sock where
  pool : Bool
  buffer : List UInt8
  connected : Bool
  required : Required
  co : Option Who
  closing : Option Who
  limit : Option Nat
  waiting : Option Call
  closer : Closer
  woken : Option Who
  overflowed : Bool
  received : List UInt8
  results : List (Call × Result)
  deriving DecidableEq

namespace Sock

def start (limit : Option Nat) : Sock where
  pool := true
  buffer := []
  connected := true
  required := .nothing
  co := none
  closing := none
  limit := limit
  waiting := none
  closer := .idle
  woken := none
  overflowed := false
  received := []
  results := []

variable (s : Sock)

def wakeup : Sock :=
  match s.co with
  | some co => { s with co := none, woken := some co }
  | none => s

def give (call : Call) (result : Result) : Sock := { s with results := s.results ++ [(call, result)] }

def readall (call : Call) (result : List UInt8 → Result) : Sock :=
  { s with buffer := [] }.give call (result s.buffer)

def pop (n : Nat) (otherwise : Sock) : Sock :=
  if 0 < n ∧ n ≤ s.buffer.length then
    { s with buffer := s.buffer.drop n }.give (.size n) (.data (s.buffer.take n))
  else otherwise

def readline (sep : Separator) (otherwise : Sock) : Sock :=
  match Search.find sep.bytes s.buffer with
  | some i =>
      { s with buffer := s.buffer.drop (i + sep.bytes.length) }.give (.line sep)
        (.line (s.buffer.take i) sep)
  | none => otherwise

def pushed (chunk : List UInt8) : Sock :=
  { s with buffer := s.buffer ++ chunk, received := s.received ++ chunk }

def Over : Prop := ∃ limit ∈ s.limit, limit < s.buffer.length

instance : Decidable s.Over := by
  unfold Over
  infer_instance

def overflow : Sock := { s with buffer := [], overflowed := true }

def rouse : Sock := { s with required := .nothing }.wakeup

def serve : Sock :=
  match s.required with
  | .size n => if n ≤ s.buffer.length then s.rouse else s
  | .line sep =>
      if s.Over then s.overflow
      else if (Search.find sep.bytes s.buffer).isSome then s.rouse
      else s
  | .all | .nothing => if s.Over then s.overflow else s

def data (chunk : List UInt8) : Sock := if s.pool then (s.pushed chunk).serve else s

def closed : Sock := if s.pool then { s with connected := false }.wakeup else s

-- `assert(not s.read_required)`, the assignment, and `suspend`
def await (call : Call) (required : Required) : Sock :=
  if s.required ≠ .nothing then s.give call .raised
  else if s.co ≠ none then { s with required }.give call .raised
  else { s with required, co := some .reader, waiting := some call }

-- How `socket.close` waits while the connection lasts; none where `assert(not s.closing)` fails.
def awaitClose (who : Who) : Option Sock :=
  if s.co = none then some { s with co := some who }
  else if s.closing = none then some { s with closing := some who }
  else none

-- The end of `socket.close`: `socket.shutdown` clears the buffer.
def finish : Sock := { s with buffer := [], connected := false, pool := false }

def call : Call → Sock
  | .some_ =>
      if s.pool then
        if s.buffer ≠ [] then s.readall .some_ .data
        else if s.connected then s.await .some_ (.size 0)
        else s.give .some_ (.ends [])
      else s.give .some_ .raised
  | .size n =>
      if s.pool then
        s.pop n (if s.connected then s.await (.size n) (.size n) else s.readall (.size n) .ends)
      else s.give (.size n) .raised
  | .all =>
      if s.pool then
        if s.connected then s.await .all .all
        else s.readall .all .rest
      else s.give .all .raised
  | .line sep =>
      if s.pool then
        s.readline sep
          (if s.connected then s.await (.line sep) (.line sep) else s.readall (.line sep) .ends)
      else s.give (.line sep) .raised
  | .block =>
      if s.pool ∧ s.connected then s.await .block (.size 0) else s.give .block (.unblocked false)
  | .close =>
      if s.pool then
        if s.connected then
          (s.awaitClose .reader).elim (s.give .close .raised) fun s =>
            { s with waiting := some .close }
        else s.finish.give .close .closed
      else s.give .close .closed

def continue_ : Call → Sock
  | .some_ => s.readall .some_ .rest
  | .size n => s.pop n (s.readall (.size n) .ends)
  | .all => if s.connected then s.give .all .raised else s.readall .all .data
  | .line sep =>
      if s.connected then s.readline sep (s.give (.line sep) .missing)
      else s.readall (.line sep) .ends
  | .block => s.give .block (.unblocked s.connected)
  | .close => s.finish.give .close .closed

-- The end of `suspend` wakes the coroutine that closes. That one has waited without `suspend`.
def resumed (who : Who) : Sock := { s with woken := s.closing.filter fun other => other ≠ who }

def resumeReader (call : Call) : Sock := ({ s with waiting := none }.resumed .reader).continue_ call

def resumeCloser : Sock := { (s.resumed .closer).finish with closer := .done }

-- `socket.close` of the coroutine that does not read
def close : Sock :=
  if s.pool then
    if s.connected then
      (s.awaitClose .closer).elim { s with closer := .done } fun next =>
        { next with closer := if s.co = none then .suspended else .behind }
    else { s.finish with closer := .done }
  else { s with closer := .done }

end Sock

def Call.sz : Call → Nat
  | .size n => n
  | _ => 0

inductive Action where
  | data (chunk : List UInt8)
  | closed
  | call (call : Call)
  | close
  | resume
  deriving DecidableEq

-- A coroutine that was woken runs before the next message, but a reader that has just been woken goes
-- on before the coroutine that closes. Packets are not empty, and the driver counts in an `int`.
def step (s : Sock) : Action → Option Sock
  | .data chunk =>
      if s.woken = none ∧ chunk ≠ [] ∧ s.buffer.length + chunk.length < 2 ^ 31 then
        some (s.data chunk)
      else none
  | .closed => if s.woken = none then some s.closed else none
  | .call call =>
      if call.sz < 2 ^ 31 ∧ s.waiting = none ∧
          (s.woken = none ∨ (s.woken = some .closer ∧ s.closer = .behind)) then
        some (s.call call)
      else none
  | .close => if s.woken = none ∧ s.closer = .idle then some s.close else none
  | .resume =>
      match s.woken, s.waiting with
      | some .reader, some call => some (s.resumeReader call)
      | some .closer, _ => some s.resumeCloser
      | _, _ => none

end Pskynet.SocketLua
