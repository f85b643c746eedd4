import Mathlib.Logic.Function.Basic
import Mathlib.Data.List.Perm.Basic
import Mathlib.Tactic
import Pskynet.Shared.Transition

set_option autoImplicit false

namespace Pskynet.Skynet

inductive ReplyType where
  | response
  | error
  deriving DecidableEq, Repr

-- A message that answers a request, with the request it is for. A number that the tables do not
-- have is `nil`.
structure Reply where
  request : Option Nat
  address : Option Nat
  session : Option Nat
  type : ReplyType
  deriving DecidableEq, Repr

structure Request where
  session : Nat
  source : Nat
  deriving DecidableEq, Repr

-- The upvalue `f` of a response closure: the function that packs, `false` or `nil`.
inductive Pack where
  | ready
  | dead
  | gone
  deriving DecidableEq, Repr

structure Closure where
  request : Option Nat
  address : Nat
  session : Option Nat
  f : Pack
  deriving DecidableEq, Repr

-- `session_response[co]` when it is not `nil`.
inductive Answer where
  | returned
  | closure (k : Nat)
  deriving DecidableEq, Repr

-- The tables of `skynet.lua` that say who is to be answered. `requests` numbers the requests that
-- came in, `serving` is the one a coroutine was started for, `reported` tells which of them were
-- answered with an error because their coroutine raised one or the service exits, and `replies` is
-- what was sent.
structure Books where
  sessionCoroutineId : Nat → Option Nat
  sessionCoroutineAddress : Nat → Option Nat
  sessionResponse : Nat → Option Answer
  watchingService : Nat → Option Nat
  deadService : Nat → Bool
  closures : List Closure
  exited : Bool
  requests : List Request
  serving : Nat → Option Nat
  reported : Nat → Bool
  replies : List Reply

namespace Books

def reply (b : Books) (co : Nat) (type : ReplyType) : Reply where
  request := b.serving co
  address := b.sessionCoroutineAddress co
  session := b.sessionCoroutineId co
  type := type

def releaseWatching (b : Books) (address : Nat) : Books :=
  match b.watchingService address with
  | none => b
  | some ref =>
      { b with
        watchingService :=
          Function.update b.watchingService address (if 0 < ref - 1 then some (ref - 1) else none) }

def start (b : Books) (co session source : Nat) : Books :=
  { b with
    watchingService := Function.update b.watchingService source
      (some (match b.watchingService source with | none => 1 | some ref => ref + 1))
    sessionCoroutineId := Function.update b.sessionCoroutineId co (some session)
    sessionCoroutineAddress := Function.update b.sessionCoroutineAddress co (some source)
    requests := b.requests ++ [{ session := session, source := source }]
    serving := Function.update b.serving co (some b.requests.length) }

def fail (b : Books) (co : Nat) : Books :=
  match b.sessionCoroutineId co with
  | none => b
  | some session =>
      { b with
        replies := if session = 0 then b.replies else b.replies ++ [b.reply co .error]
        sessionCoroutineId := Function.update b.sessionCoroutineId co none
        sessionCoroutineAddress := Function.update b.sessionCoroutineAddress co none
        serving := Function.update b.serving co none
        reported := (b.serving co).elim b.reported fun r => Function.update b.reported r true }

-- `RETURN`. The flag says whether `suspend` goes on; it raises an error after a second answer,
-- and in the send when there is no address.
def ret (b : Books) (co : Nat) : Books × Bool :=
  match b.sessionResponse co with
  | some _ => (b, false)
  | none =>
      let noted := { b with sessionResponse := Function.update b.sessionResponse co (some .returned) }
      match b.sessionCoroutineAddress co with
      | none => (noted, false)
      | some address =>
          if b.deadService address then (noted, true)
          else ({ noted with replies := b.replies ++ [b.reply co .response] }, true)

-- `RESPONSE`. Without an address, or a count for it, the addition raises an error.
def response (b : Books) (co : Nat) : Books × Bool :=
  match b.sessionResponse co with
  | some _ => (b, false)
  | none =>
      match b.sessionCoroutineAddress co with
      | none => (b, false)
      | some address =>
          match b.watchingService address with
          | none => (b, false)
          | some ref =>
              ({ b with
                watchingService := Function.update b.watchingService address (some (ref + 1))
                sessionResponse :=
                  Function.update b.sessionResponse co (some (.closure b.closures.length))
                closures := b.closures ++
                  [{ request := b.serving co, address := address,
                     session := b.sessionCoroutineId co, f := .ready }] }, true)

def exit (b : Books) (co : Nat) : Books :=
  let released := (b.sessionCoroutineAddress co).elim b b.releaseWatching
  { released with
    sessionCoroutineId := Function.update b.sessionCoroutineId co none
    sessionCoroutineAddress := Function.update b.sessionCoroutineAddress co none
    sessionResponse := Function.update b.sessionResponse co none
    serving := Function.update b.serving co none }

def setPack (b : Books) (k : Nat) (f : Pack) : Books :=
  { b with closures := b.closures.modify k fun closure => { closure with f := f } }

def test (b : Books) (k : Nat) : Books :=
  match b.closures[k]? with
  | none => b
  | some closure =>
      if b.deadService closure.address then (b.releaseWatching closure.address).setPack k .dead else b

-- A response closure called to answer; `packs` says that the function `f` does not raise an
-- error. A second call raises one.
def respond (b : Books) (k : Nat) (ok packs : Bool) : Books :=
  match b.closures[k]? with
  | none => b
  | some closure =>
      match closure.f with
      | .gone => b
      | .dead => b.setPack k .gone
      | .ready =>
          let sent (type : ReplyType) : Reply :=
            { request := closure.request, address := some closure.address,
              session := closure.session, type := type }
          if b.deadService closure.address then
            (b.releaseWatching closure.address).setPack k .gone
          else if ok ∧ packs = false then b
          else
            let told := { b with replies := b.replies ++ [sent (if ok then .response else .error)] }
            (told.releaseWatching closure.address).setPack k .gone

-- The coroutines below `count` whose callers `skynet.exit` reports to.
def callers (b : Books) (count : Nat) : List Nat :=
  (List.range count).filter fun co =>
    (b.sessionCoroutineId co).any (· ≠ 0) && (b.sessionCoroutineAddress co).isSome

def report (b : Books) (count : Nat) : Books :=
  { b with
    replies := b.replies ++ (b.callers count).map fun co => b.reply co .error
    exited := true
    reported := fun r =>
      b.reported r || (b.callers count).any fun co => b.serving co == some r }

end Books

-- An entry of `session_id_coroutine`: a coroutine or `"BREAK"`.
inductive Waiter where
  | thread (co : Nat)
  | broken
  deriving DecidableEq, Repr

-- Where a coroutine stands. One is `due` when a timer will start it, and `stuck` when `suspend`
-- returned or raised an error without arranging for it to go on.
inductive Place where
  | unborn
  | fresh
  | due (session : Nat)
  | forked
  | running
  | calling (session : Nat)
  | sleeping (session : Nat)
  | waiting (session : Nat)
  | stuck
  | pooled
  | dead
  deriving DecidableEq, Repr

-- What is executed: nothing between messages, a coroutine, `dispatch_wakeup` or
-- `dispatch_error_queue` at the end of `suspend`, or the loop of `dispatch_message`.
inductive Mode where
  | idle
  | running (co : Nat)
  | wakeups
  | errors
  | forks
  deriving DecidableEq, Repr

-- `depth` counts the calls of `suspend` below the current one; each has its call of
-- `dispatch_error_queue` to make.
structure Service extends Books where
  sessionIdCoroutine : Nat → Option Waiter
  wakeupSession : List Nat
  sleepSession : Nat → Option Nat
  watchingSession : List (Nat × Nat)
  errorQueue : List Nat
  forkQueue : List Nat
  coroutinePool : List Nat
  coroutines : Nat
  place : Nat → Place
  mode : Mode
  depth : Nat

namespace Service

-- The service after `skynet.start`: a timer will start the first coroutine.
def start (session : Nat) : Service where
  sessionCoroutineId := fun _ => none
  sessionCoroutineAddress := fun _ => none
  sessionResponse := fun _ => none
  watchingService := fun _ => none
  deadService := fun _ => false
  closures := []
  exited := false
  requests := []
  serving := fun _ => none
  reported := fun _ => false
  replies := []
  sessionIdCoroutine := Function.update (fun _ => none) session (some (.thread 0))
  wakeupSession := []
  sleepSession := fun _ => none
  watchingSession := []
  errorQueue := []
  forkQueue := []
  coroutinePool := []
  coroutines := 1
  place := Function.update (fun _ => .unborn) 0 (.due session)
  mode := .idle
  depth := 0

def setPlace (s : Service) (co : Nat) (place : Place) : Service :=
  { s with place := Function.update s.place co place }

def setEntry (s : Service) (session : Nat) (entry : Option Waiter) : Service :=
  { s with sessionIdCoroutine := Function.update s.sessionIdCoroutine session entry }

-- An error ends every `suspend` up to the `pcall` of `dispatch_message`.
def unwind (s : Service) : Service := { s with mode := .forks, depth := 0 }

def back (s : Service) : Service :=
  match s.depth with
  | 0 => { s with mode := .forks }
  | depth + 1 => { s with mode := .errors, depth := depth }

def coCreate (s : Service) (place : Place) : Nat × Service :=
  match s.coroutinePool.getLast? with
  | some co => (co, { s.setPlace co place with coroutinePool := s.coroutinePool.dropLast })
  | none => (s.coroutines, { s.setPlace s.coroutines place with coroutines := s.coroutines + 1 })

def fail (s : Service) (co : Nat) : Service :=
  { (s.setPlace co .dead).unwind with toBooks := s.toBooks.fail co }

-- A coroutine is resumed and does what comes first after its yield: `yield_call`, `skynet.sleep`
-- and `skynet.wait` clear their tables. One that is not suspended there cannot be resumed.
def resume (s : Service) (co depth : Nat) : Service :=
  let next := { s.setPlace co .running with mode := .running co, depth := depth }
  match s.place co with
  | .fresh | .due _ | .forked => next
  | .calling session =>
      { next with watchingSession := s.watchingSession.filter fun entry => entry.1 ≠ session }
  | .sleeping _ => { next with sleepSession := Function.update s.sleepSession co none }
  | .waiting session =>
      { next.setEntry session none with sleepSession := Function.update s.sleepSession co none }
  | _ => s.fail co

-- `pairs(watching_session)` has no order of its own, so that `order` is any one.
def errorDispatch (s : Service) (session source : Nat) (order : List Nat) : Option Service :=
  if session = 0 then
    let noted :=
      if (s.watchingService source).isSome then
        { s with deadService := Function.update s.deadService source true }
      else s
    let sessions := (s.watchingSession.filter fun entry => entry.2 = source).map Prod.fst
    if order.isPerm sessions then some { noted with errorQueue := s.errorQueue ++ order } else none
  else if session ∈ s.watchingSession.map Prod.fst then
    some { s with errorQueue := s.errorQueue ++ [session] }
  else some s

def finish (s : Service) (co : Nat) : Service :=
  { s.setPlace co .pooled with
    toBooks := s.toBooks.exit co
    coroutinePool := s.coroutinePool ++ [co]
    mode := .wakeups }

end Service

-- The messages, what the coroutine that runs does next, and the loops of the dispatcher. The
-- numbers of sessions come from outside, and so does the order in which `next` goes through a
-- table.
inductive Action where
  | response (session : Nat)
  | request (session source : Nat) (known unpacks : Bool)
  | error (session source : Nat) (order : List Nat)
  | call (session address : Nat)
  | sleep (session : Nat)
  | wait (session : Nat)
  | ret
  | askResponse
  | test (k : Nat)
  | respond (k : Nat) (ok packs : Bool)
  | wakeup (co : Nat)
  | term (address : Nat) (order : List Nat)
  | fork
  | timeout (session : Nat)
  | finish
  | raise
  | exit
  | yield
  | wake (co : Nat)
  | awake
  | drain
  | runFork (co : Nat)
  | done

namespace Service

def receive (s : Service) : Action → Option Service
  | .response session =>
      match s.sessionIdCoroutine session with
      | none => some s.unwind
      | some .broken => some (s.setEntry session none).unwind
      | some (.thread co) => some ((s.setEntry session none).resume co 0)
  | .request session source known unpacks =>
      if known then
        let (co, created) := s.coCreate .fresh
        let started := { created with toBooks := created.toBooks.start co session source }
        some (if unpacks then started.resume co 0 else started.unwind)
      else some s.unwind
  | .error session source order =>
      let (co, created) := s.coCreate .fresh
      let started := { created with toBooks := created.toBooks.start co session source }
      ((started.resume co 0).errorDispatch session source order).map fun told => told.finish co
  | _ => none

def perform (s : Service) (co : Nat) : Action → Option Service
  | .call session address =>
      some { (s.setPlace co (.calling session)).setEntry session (some (.thread co)) with
        watchingSession :=
          (session, address) :: s.watchingSession.filter fun entry => entry.1 ≠ session
        mode := .wakeups }
  | .sleep session =>
      some { (s.setPlace co (.sleeping session)).setEntry session (some (.thread co)) with
        sleepSession := Function.update s.sleepSession co (some session)
        mode := .wakeups }
  | .wait session =>
      some { (s.setPlace co (.waiting session)).setEntry session (some (.thread co)) with
        sleepSession := Function.update s.sleepSession co (some session)
        mode := .wakeups }
  | .ret =>
      let (books, goesOn) := s.toBooks.ret co
      some (if goesOn then { s with toBooks := books }
        else { (s.setPlace co .stuck).unwind with toBooks := books })
  | .askResponse =>
      let (books, goesOn) := s.toBooks.response co
      some (if goesOn then { s with toBooks := books }
        else { (s.setPlace co .stuck).unwind with toBooks := books })
  | .test k => some { s with toBooks := s.toBooks.test k }
  | .respond k ok packs => some { s with toBooks := s.toBooks.respond k ok packs }
  | .wakeup other =>
      some (if (s.sleepSession other).isSome ∧ other ∉ s.wakeupSession then
        { s with wakeupSession := s.wakeupSession ++ [other] } else s)
  | .term address order => s.errorDispatch 0 address order
  | .fork =>
      let (new, created) := s.coCreate .forked
      some { created with forkQueue := created.forkQueue ++ [new] }
  | .timeout session =>
      -- The entry is checked after the coroutine was made.
      if s.sessionIdCoroutine session = none then
        let (new, created) := s.coCreate (.due session)
        some (created.setEntry session (some (.thread new)))
      else some (s.coCreate .fresh).2
  | .finish => some (s.finish co)
  | .raise => some (s.fail co)
  | .exit =>
      let told := { s.setPlace co .stuck with
        toBooks := s.toBooks.report s.coroutines
        forkQueue := [] }
      some told.back
  | .yield => some (s.setPlace co .stuck).back
  | _ => none

def step (s : Service) (action : Action) : Option Service :=
  match s.mode, action with
  | .idle, action => if s.exited then none else s.receive action
  | .running co, action => s.perform co action
  | .wakeups, .wake co =>
      if co ∈ s.wakeupSession then
        let taken := { s with wakeupSession := s.wakeupSession.erase co }
        match s.sleepSession co with
        | none => some { taken with mode := .errors }
        | some session =>
            some ((taken.setEntry session (some .broken)).resume co (s.depth + 1))
      else none
  | .wakeups, .awake => if s.wakeupSession = [] then some { s with mode := .errors } else none
  | .errors, .drain =>
      match s.errorQueue with
      | [] => some s.back
      | session :: rest =>
          let taken := { s.setEntry session none with errorQueue := rest }
          match s.sessionIdCoroutine session with
          | some (.thread co) => some (taken.resume co s.depth)
          | _ => some taken.unwind
  | .forks, .runFork co =>
      if co ∈ s.forkQueue then
        some ({ s with forkQueue := s.forkQueue.erase co }.resume co 0)
      else none
  | .forks, .done => if s.forkQueue = [] then some { s with mode := .idle } else none
  | _, _ => none

end Service

end Pskynet.Skynet
