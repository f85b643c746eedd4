import Pskynet.Server.Handle

set_option autoImplicit false

namespace Pskynet.Dispatch

open Server

scoped instance workersNeZero : NeZero 1 := ⟨by decide⟩

variable {M : Type} {n : Nat}

-- `SNMessageQueue`, without the overload counters that only feed a log line.
structure Queue (M : Type) where
  messages : List M
  inGlobal : Bool

-- A context and its queue from `Register` in `NewContext` to `delete pQueue`. A context
-- is `registered` while `m_queue` is still null, `failing` while a launch that failed
-- drops the messages of its queue, and `failed` before that queue is deleted.
inductive Life where
  | absent
  | registered
  | initialising
  | ready
  | failing
  | failed
  | deleted
  deriving DecidableEq, Repr

def Life.hasQueue : Life → Bool
  | .initialising | .ready | .failing | .failed => true
  | .absent | .registered | .deleted => false

-- Where a worker stands in `DispatchMessageQueue`, with its local variables: the queue,
-- the context found for it, the message in hand, and `i` and `n` of the loop.
inductive Worker (M : Type) where
  | idle
  | holding (q : Nat)
  | looping (q c i count : Nat)
  | sizing (q c : Nat) (m : M)
  | delivering (q c : Nat) (m : M) (i count : Nat)
  | swapping (q next : Nat)
  | emptied (q : Nat)
  | releasing (q : Nat)
  | deleting (q : Nat)

-- `granted` is the handle `Register` returned, kept in the queue as `m_handle`; `handle`
-- is the field of the context. `senders` are the calls of `ContextPush` that have found
-- their context and not yet pushed, `exiters` those of `handle_exit` between `Remove` and
-- `ForceInGlobal`. The next four fields are the history of each queue and context, and
-- `stale` has the queues on which `ForceInGlobal` was called after `delete`.
structure State (M : Type) (n : Nat) where
  mgr : SNHandleMgr Nat
  contexts : Nat
  granted : Nat → UInt32
  handle : Nat → UInt32
  life : Nat → Life
  queue : Nat → Queue M
  global : List Nat
  worker : Fin n → Worker M
  senders : List (Nat × M)
  exiters : List Nat
  accepted : Nat → List M
  dispatched : Nat → List M
  dropped : Nat → List M
  orphaned : Nat → List M
  stale : List Nat

def State.init (harbor : UInt32) : State M n where
  mgr := .new harbor
  contexts := 0
  granted := fun _ => 0
  handle := fun _ => 0
  life := fun _ => .absent
  queue := fun _ => { messages := [], inGlobal := true }
  global := []
  worker := fun _ => .idle
  senders := []
  exiters := []
  accepted := fun _ => []
  dispatched := fun _ => []
  dropped := fun _ => []
  orphaned := fun _ => []
  stale := []

inductive Action (M : Type) (n : Nat) where
  | register
  | construct (c : Nat)
  | initDone (c : Nat)
  | initFailed (c : Nat)
  | discard (c : Nat)
  | find (handle : UInt32) (m : M)
  | push (k : Nat)
  | remove (handle : UInt32)
  | force (k : Nat)
  | work (w : Fin n)

namespace State

def setQueue (s : State M n) (q : Nat) (queue : Queue M) : State M n :=
  { s with queue := Function.update s.queue q queue }

def setLife (s : State M n) (c : Nat) (life : Life) : State M n :=
  { s with life := Function.update s.life c life }

def setWorker (s : State M n) (w : Fin n) (worker : Worker M) : State M n :=
  { s with worker := Function.update s.worker w worker }

def pushGlobal (s : State M n) (q : Nat) : State M n := { s with global := s.global ++ [q] }

def forceInGlobal (s : State M n) (q : Nat) : State M n :=
  if (s.queue q).inGlobal then s
  else (s.setQueue q { s.queue q with inGlobal := true }).pushGlobal q

def push (s : State M n) (q : Nat) (m : M) : State M n :=
  let pushed := s.setQueue q { s.queue q with messages := (s.queue q).messages ++ [m] }
  forceInGlobal { pushed with accepted := Function.update s.accepted q (s.accepted q ++ [m]) } q

-- A push on a queue whose memory has been given back.
def orphan (s : State M n) (q : Nat) (m : M) : State M n :=
  { s with
    accepted := Function.update s.accepted q (s.accepted q ++ [m])
    orphaned := Function.update s.orphaned q (s.orphaned q ++ [m]) }

-- `ForceInGlobal` on a queue whose memory has been given back.
def late (s : State M n) (q : Nat) : State M n := { s with stale := s.stale ++ [q] }

def drop (s : State M n) (q : Nat) (m : M) (rest : List M) : State M n :=
  { s.setQueue q { s.queue q with messages := rest } with
    dropped := Function.update s.dropped q (s.dropped q ++ [m]) }

-- `m_pMqMgr->Pop()` as the result of `DispatchMessageQueue`.
def popGlobal (s : State M n) (w : Fin n) : State M n :=
  match s.global with
  | [] => s.setWorker w .idle
  | q :: rest => { s.setWorker w (.holding q) with global := rest }

def work (s : State M n) (weight : Fin n → Int) (w : Fin n) : State M n :=
  match s.worker w with
  | .idle => s.popGlobal w
  | .holding q =>
      match s.mgr.findContext (s.granted q) with
      | none => s.setWorker w (.releasing q)
      | some c => s.setWorker w (.looping q c 0 1)
  | .releasing q =>
      match (s.queue q).messages with
      | [] => s.setWorker w (.deleting q)
      | m :: rest => s.drop q m rest
  | .deleting q => (s.setLife q .deleted).popGlobal w
  | .looping q c i count =>
      if i < count then
        match (s.queue q).messages with
        | [] => (s.setQueue q { s.queue q with inGlobal := false }).setWorker w (.emptied q)
        | m :: rest =>
            (s.setQueue q { s.queue q with messages := rest }).setWorker w
              (if i = 0 ∧ 0 ≤ weight w then .sizing q c m else .delivering q c m i count)
      else
        match s.global with
        | [] => s.setWorker w (.holding q)
        | next :: rest => { s.setWorker w (.swapping q next) with global := rest }
  | .sizing q c m =>
      s.setWorker w
        (.delivering q c m 0 ((s.queue q).messages.length / 2 ^ (weight w).toNat))
  | .delivering q c m i count =>
      { s.setWorker w (.looping q c (i + 1) count) with
        dispatched := Function.update s.dispatched c (s.dispatched c ++ [m]) }
  | .swapping q next => (s.setWorker w (.holding next)).pushGlobal q
  | .emptied _ => s.popGlobal w

end State

-- An action that its thread cannot take in `s` has no next state; a push through a null
-- `m_queue` is among them.
def step (weight : Fin n → Int) (s : State M n) : Action M n → Option (State M n)
  | .register =>
      (s.mgr.register s.contexts).map fun (handle, mgr) =>
        { s.setLife s.contexts .registered with
          mgr := mgr
          contexts := s.contexts + 1
          granted := Function.update s.granted s.contexts handle }
  | .construct c =>
      if s.life c = .registered then
        some { (s.setLife c .initialising).setQueue c { messages := [], inGlobal := true } with
          handle := Function.update s.handle c (s.granted c) }
      else none
  | .initDone c =>
      if s.life c = .initialising then some ((s.setLife c .ready).pushGlobal c) else none
  | .initFailed c =>
      if s.life c = .initialising then
        some { s.setLife c .failing with mgr := (s.mgr.remove s.handle (s.granted c)).2 }
      else none
  | .discard c =>
      match s.life c with
      | .failing =>
          match (s.queue c).messages with
          | [] => some (s.setLife c .failed)
          | m :: rest => some (s.drop c m rest)
      | .failed => some (s.setLife c .deleted)
      | _ => none
  | .find handle m =>
      match s.mgr.findContext handle with
      | none => some s
      | some c => some { s with senders := s.senders ++ [(c, m)] }
  | .push k =>
      match s.senders[k]? with
      | none => none
      | some (q, m) =>
          let left := { s with senders := s.senders.eraseIdx k }
          if (s.life q).hasQueue then some (left.push q m)
          else if s.life q = .deleted then some (left.orphan q m)
          else none
  | .remove handle =>
      match s.mgr.remove s.handle handle with
      | (none, _) => some s
      | (some c, mgr) => some { s with mgr := mgr, exiters := s.exiters ++ [c] }
  | .force k =>
      match s.exiters[k]? with
      | none => none
      | some q =>
          let left := { s with exiters := s.exiters.eraseIdx k }
          if (s.life q).hasQueue then some (left.forceInGlobal q)
          else if s.life q = .deleted then some (left.late q)
          else none
  | .work w => some (s.work weight w)

theorem forceInGlobal_eq (s : State M n) (q : Nat) :
    s.forceInGlobal q =
      { s with
        queue := Function.update s.queue q { s.queue q with inGlobal := true }
        global := if (s.queue q).inGlobal then s.global else s.global ++ [q] } := by
  unfold State.forceInGlobal
  split_ifs with inside
  · have same : { s.queue q with inGlobal := true } = s.queue q := by rw [← inside]
    rw [same, Function.update_eq_self]
  · rfl

theorem push_eq (s : State M n) (q : Nat) (m : M) :
    s.push q m =
      { s with
        queue := Function.update s.queue q
          { messages := (s.queue q).messages ++ [m], inGlobal := true }
        global := if (s.queue q).inGlobal then s.global else s.global ++ [q]
        accepted := Function.update s.accepted q (s.accepted q ++ [m]) } := by
  simp [State.push, State.setQueue, forceInGlobal_eq]

-- Everything a step can do, one case for each way through `step`.
inductive Taken (weight : Fin n → Int) (s : State M n) : Action M n → State M n → Prop where
  | register (handle : UInt32) (mgr : SNHandleMgr Nat)
      (given : s.mgr.register s.contexts = some (handle, mgr)) :
      Taken weight s .register
        { s.setLife s.contexts .registered with
          mgr := mgr
          contexts := s.contexts + 1
          granted := Function.update s.granted s.contexts handle }
  | construct (c : Nat) (here : s.life c = .registered) :
      Taken weight s (.construct c)
        { (s.setLife c .initialising).setQueue c { messages := [], inGlobal := true } with
          handle := Function.update s.handle c (s.granted c) }
  | initDone (c : Nat) (here : s.life c = .initialising) :
      Taken weight s (.initDone c) ((s.setLife c .ready).pushGlobal c)
  | initFailed (c : Nat) (here : s.life c = .initialising) :
      Taken weight s (.initFailed c)
        { s.setLife c .failing with mgr := (s.mgr.remove s.handle (s.granted c)).2 }
  | discardLast (c : Nat) (here : s.life c = .failing) (front : (s.queue c).messages = []) :
      Taken weight s (.discard c) (s.setLife c .failed)
  | discardOne (c : Nat) (m : M) (rest : List M) (here : s.life c = .failing)
      (front : (s.queue c).messages = m :: rest) :
      Taken weight s (.discard c) (s.drop c m rest)
  | discarded (c : Nat) (here : s.life c = .failed) :
      Taken weight s (.discard c) (s.setLife c .deleted)
  | unknown (handle : UInt32) (m : M) : Taken weight s (.find handle m) s
  | find (handle : UInt32) (m : M) (c : Nat) (found : s.mgr.findContext handle = some c) :
      Taken weight s (.find handle m) { s with senders := s.senders ++ [(c, m)] }
  | push (k q : Nat) (m : M) (pending : s.senders[k]? = some (q, m)) (here : (s.life q).hasQueue) :
      Taken weight s (.push k) (State.push { s with senders := s.senders.eraseIdx k } q m)
  | orphan (k q : Nat) (m : M) (pending : s.senders[k]? = some (q, m)) (gone : s.life q = .deleted) :
      Taken weight s (.push k) (State.orphan { s with senders := s.senders.eraseIdx k } q m)
  | kept (handle : UInt32) : Taken weight s (.remove handle) s
  | remove (handle : UInt32) (c : Nat) (returned : (s.mgr.remove s.handle handle).1 = some c) :
      Taken weight s (.remove handle)
        { s with mgr := (s.mgr.remove s.handle handle).2, exiters := s.exiters ++ [c] }
  | force (k q : Nat) (pending : s.exiters[k]? = some q) (here : (s.life q).hasQueue) :
      Taken weight s (.force k)
        (State.forceInGlobal { s with exiters := s.exiters.eraseIdx k } q)
  | forced (k q : Nat) (pending : s.exiters[k]? = some q) (gone : s.life q = .deleted) :
      Taken weight s (.force k) (State.late { s with exiters := s.exiters.eraseIdx k } q)
  | work (w : Fin n) : Taken weight s (.work w) (s.work weight w)

theorem step_taken (weight : Fin n → Int) (s t : State M n) (action : Action M n)
    (stepped : step weight s action = some t) : Taken weight s action t := by
  cases action with
  | register =>
    simp only [step, Option.map_eq_some_iff] at stepped
    obtain ⟨⟨handle, mgr⟩, given, rfl⟩ := stepped
    exact .register handle mgr given
  | construct c =>
    simp only [step, Option.ite_none_right_eq_some, Option.some.injEq] at stepped
    obtain ⟨here, rfl⟩ := stepped
    exact .construct c here
  | initDone c =>
    simp only [step, Option.ite_none_right_eq_some, Option.some.injEq] at stepped
    obtain ⟨here, rfl⟩ := stepped
    exact .initDone c here
  | initFailed c =>
    simp only [step, Option.ite_none_right_eq_some, Option.some.injEq] at stepped
    obtain ⟨here, rfl⟩ := stepped
    exact .initFailed c here
  | discard c =>
    simp only [step] at stepped
    split at stepped
    · rename_i here
      split at stepped <;> simp only [Option.some.injEq] at stepped <;> subst stepped
      · rename_i front
        exact .discardLast c here front
      · rename_i m rest front
        exact .discardOne c m rest here front
    · rename_i here
      simp only [Option.some.injEq] at stepped
      exact stepped ▸ .discarded c here
    · contradiction
  | find handle m =>
    simp only [step] at stepped
    split at stepped <;> simp only [Option.some.injEq] at stepped <;> subst stepped
    · exact .unknown handle m
    · rename_i c found
      exact .find handle m c found
  | push k =>
    simp only [step] at stepped
    split at stepped
    · contradiction
    · rename_i q m pending
      split_ifs at stepped with here gone <;> simp only [Option.some.injEq] at stepped <;>
        subst stepped
      · exact .push k q m pending here
      · exact .orphan k q m pending gone
  | remove handle =>
    simp only [step] at stepped
    split at stepped <;> simp only [Option.some.injEq] at stepped <;> subst stepped
    · exact .kept handle
    · rename_i c mgr removed
      have taken : Taken weight s (.remove handle) _ := .remove handle c (by rw [removed])
      rwa [removed] at taken
  | force k =>
    simp only [step] at stepped
    split at stepped
    · contradiction
    · rename_i q pending
      split_ifs at stepped with here gone <;> simp only [Option.some.injEq] at stepped <;>
        subst stepped
      · exact .force k q pending here
      · exact .forced k q pending gone
  | work w =>
    simp only [step, Option.some.injEq] at stepped
    exact stepped ▸ .work w

end Pskynet.Dispatch
