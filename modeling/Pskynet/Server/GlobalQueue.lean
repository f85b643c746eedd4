import Pskynet.Shared.Linked
import Pskynet.Shared.Transition

set_option autoImplicit false

namespace Pskynet.GlobalQueue

open Linked

scoped instance threadsNeZero : NeZero 2 := ⟨by decide⟩

variable {n : Nat}

-- Where a thread stands in `SNMessageQueueMgr::Push` or `Pop` of the release build, with its
-- local variables; `ret` is there when `Push` was called by `Pop`.
inductive Thread where
  | idle
  | pushing (queue : Nat) (ret : Option Nat)
  | parking (queue : Nat) (ret : Option Nat)
  | missed (queue : Nat) (seen : Option Nat) (ret : Option Nat)
  | popping
  | popped (ret : Nat)
  | loaded (ret l : Nat)
  | peeked (ret l : Nat) (newhead : Option Nat)
  | unlinked (ret l : Nat)
  | returning (ret : Nat)
  deriving DecidableEq, Repr

-- `bounded` is `m_queue`, with room for `capacity` queues. `inside` records which queues were
-- pushed and not yet returned by a `Pop`.
structure Mgr (n : Nat) where
  capacity : Nat
  bounded : List Nat
  list : Option Nat
  next : Nat → Option Nat
  thread : Fin n → Thread
  inside : Nat → Bool

def Mgr.init (capacity : Nat) : Mgr n where
  capacity := capacity
  bounded := []
  list := none
  next := fun _ => none
  thread := fun _ => .idle
  inside := fun _ => false

def Mgr.setThread (s : Mgr n) (w : Fin n) (thread : Thread) : Mgr n :=
  { s with thread := Function.update s.thread w thread }

@[simp] theorem setThread_self (s : Mgr n) (w : Fin n) (thread : Thread) :
    (s.setThread w thread).thread w = thread := by
  simp [Mgr.setThread]

@[simp] theorem setThread_other (s : Mgr n) (w other : Fin n) (thread : Thread)
    (different : other ≠ w) : (s.setThread w thread).thread other = s.thread other := by
  simp [Mgr.setThread, different]

def pushed : Option Nat → Thread
  | none => .idle
  | some ret => .returning ret

-- The next step of a thread: a call of the bounded queue, an atomic load, a compare and
-- exchange, or a read or write of a field. A compare and exchange that fails writes
-- `queue->next` in the step after it.
def Mgr.advance (s : Mgr n) (w : Fin n) : Option (Mgr n) :=
  match s.thread w with
  | .idle => none
  | .pushing queue ret =>
      if s.bounded.length < s.capacity then
        some { s.setThread w (pushed ret) with bounded := s.bounded ++ [queue] }
      else some (s.setThread w (.parking queue ret))
  | .parking queue ret =>
      if s.list = s.next queue then some { s.setThread w (pushed ret) with list := some queue }
      else some (s.setThread w (.missed queue s.list ret))
  | .missed queue seen ret =>
      some { s.setThread w (.parking queue ret) with next := Function.update s.next queue seen }
  | .popping =>
      match s.bounded with
      | [] => some (s.setThread w .idle)
      | ret :: rest => some { s.setThread w (.popped ret) with bounded := rest }
  | .popped ret =>
      match s.list with
      | none => some (s.setThread w (.returning ret))
      | some l => some (s.setThread w (.loaded ret l))
  | .loaded ret l => some (s.setThread w (.peeked ret l (s.next l)))
  | .peeked ret l newhead =>
      if s.list = some l then some { s.setThread w (.unlinked ret l) with list := newhead }
      else some (s.setThread w (.returning ret))
  | .unlinked ret l =>
      some { s.setThread w (.pushing l (some ret)) with next := Function.update s.next l none }
  | .returning ret =>
      some { s.setThread w .idle with inside := Function.update s.inside ret false }

inductive Action (n : Nat) where
  | push (w : Fin n) (queue : Nat)
  | pop (w : Fin n)
  | advance (w : Fin n)

-- A queue is pushed only while it is not scheduled already.
def step (s : Mgr n) : Action n → Option (Mgr n)
  | .push w queue =>
      if s.thread w = .idle ∧ s.inside queue = false then
        some { s.setThread w (.pushing queue none) with
          inside := Function.update s.inside queue true }
      else none
  | .pop w => if s.thread w = .idle then some (s.setThread w .popping) else none
  | .advance w => s.advance w

def Thread.holds : Thread → List Nat
  | .idle | .popping => []
  | .pushing queue ret | .parking queue ret | .missed queue _ ret => queue :: ret.toList
  | .popped ret | .loaded ret _ | .peeked ret _ _ | .returning ret => [ret]
  | .unlinked ret l => [l, ret]

def Mgr.holds (s : Mgr n) (w : Fin n) : List Nat := (s.thread w).holds

inductive Taken (s : Mgr n) : Action n → Mgr n → Prop where
  | push (w : Fin n) (queue : Nat) (free : s.thread w = .idle) (out : s.inside queue = false) :
      Taken s (.push w queue)
        { s.setThread w (.pushing queue none) with
          inside := Function.update s.inside queue true }
  | pop (w : Fin n) (free : s.thread w = .idle) : Taken s (.pop w) (s.setThread w .popping)
  | stored (w : Fin n) (queue : Nat) (ret : Option Nat) (here : s.thread w = .pushing queue ret)
      (room : s.bounded.length < s.capacity) :
      Taken s (.advance w) { s.setThread w (pushed ret) with bounded := s.bounded ++ [queue] }
  | full (w : Fin n) (queue : Nat) (ret : Option Nat) (here : s.thread w = .pushing queue ret)
      (full : ¬s.bounded.length < s.capacity) :
      Taken s (.advance w) (s.setThread w (.parking queue ret))
  | parked (w : Fin n) (queue : Nat) (ret : Option Nat) (here : s.thread w = .parking queue ret)
      (same : s.list = s.next queue) :
      Taken s (.advance w) { s.setThread w (pushed ret) with list := some queue }
  | missed (w : Fin n) (queue : Nat) (ret : Option Nat) (here : s.thread w = .parking queue ret)
      (other : s.list ≠ s.next queue) :
      Taken s (.advance w) (s.setThread w (.missed queue s.list ret))
  | noted (w : Fin n) (queue : Nat) (seen ret : Option Nat)
      (here : s.thread w = .missed queue seen ret) :
      Taken s (.advance w)
        { s.setThread w (.parking queue ret) with next := Function.update s.next queue seen }
  | drained (w : Fin n) (here : s.thread w = .popping) (empty : s.bounded = []) :
      Taken s (.advance w) (s.setThread w .idle)
  | popped (w : Fin n) (ret : Nat) (rest : List Nat) (here : s.thread w = .popping)
      (front : s.bounded = ret :: rest) :
      Taken s (.advance w) { s.setThread w (.popped ret) with bounded := rest }
  | bare (w : Fin n) (ret : Nat) (here : s.thread w = .popped ret) (empty : s.list = none) :
      Taken s (.advance w) (s.setThread w (.returning ret))
  | loaded (w : Fin n) (ret l : Nat) (here : s.thread w = .popped ret) (front : s.list = some l) :
      Taken s (.advance w) (s.setThread w (.loaded ret l))
  | peeked (w : Fin n) (ret l : Nat) (here : s.thread w = .loaded ret l) :
      Taken s (.advance w) (s.setThread w (.peeked ret l (s.next l)))
  | unlinked (w : Fin n) (ret l : Nat) (newhead : Option Nat)
      (here : s.thread w = .peeked ret l newhead) (same : s.list = some l) :
      Taken s (.advance w) { s.setThread w (.unlinked ret l) with list := newhead }
  | beaten (w : Fin n) (ret l : Nat) (newhead : Option Nat)
      (here : s.thread w = .peeked ret l newhead) (other : s.list ≠ some l) :
      Taken s (.advance w) (s.setThread w (.returning ret))
  | cleared (w : Fin n) (ret l : Nat) (here : s.thread w = .unlinked ret l) :
      Taken s (.advance w)
        { s.setThread w (.pushing l (some ret)) with next := Function.update s.next l none }
  | returned (w : Fin n) (ret : Nat) (here : s.thread w = .returning ret) :
      Taken s (.advance w)
        { s.setThread w .idle with inside := Function.update s.inside ret false }

theorem advance_taken (s t : Mgr n) (w : Fin n) (stepped : s.advance w = some t) :
    Taken s (.advance w) t := by
  unfold Mgr.advance at stepped
  cases here : s.thread w with
  | idle =>
    rw [here] at stepped
    contradiction
  | pushing queue ret =>
    simp only [here] at stepped
    split_ifs at stepped with room <;> rw [← Option.some.inj stepped]
    · exact .stored w queue ret here room
    · exact .full w queue ret here room
  | parking queue ret =>
    simp only [here] at stepped
    split_ifs at stepped with same <;> rw [← Option.some.inj stepped]
    · exact .parked w queue ret here same
    · exact .missed w queue ret here same
  | missed queue seen ret =>
    simp only [here] at stepped
    rw [← Option.some.inj stepped]
    exact .noted w queue seen ret here
  | popping =>
    simp only [here] at stepped
    split at stepped <;> rw [← Option.some.inj stepped]
    · exact .drained w here (by assumption)
    · exact .popped w _ _ here (by assumption)
  | popped ret =>
    simp only [here] at stepped
    split at stepped <;> rw [← Option.some.inj stepped]
    · exact .bare w ret here (by assumption)
    · exact .loaded w ret _ here (by assumption)
  | loaded ret l =>
    simp only [here] at stepped
    rw [← Option.some.inj stepped]
    exact .peeked w ret l here
  | peeked ret l newhead =>
    simp only [here] at stepped
    split_ifs at stepped with same <;> rw [← Option.some.inj stepped]
    · exact .unlinked w ret l newhead here same
    · exact .beaten w ret l newhead here same
  | unlinked ret l =>
    simp only [here] at stepped
    rw [← Option.some.inj stepped]
    exact .cleared w ret l here
  | returning ret =>
    simp only [here] at stepped
    rw [← Option.some.inj stepped]
    exact .returned w ret here

theorem step_taken (s t : Mgr n) (action : Action n) (stepped : step s action = some t) :
    Taken s action t := by
  cases action with
  | push w queue =>
    simp only [step, Option.ite_none_right_eq_some, Option.some.injEq] at stepped
    obtain ⟨⟨free, out⟩, rfl⟩ := stepped
    exact .push w queue free out
  | pop w =>
    simp only [step, Option.ite_none_right_eq_some, Option.some.injEq] at stepped
    obtain ⟨free, rfl⟩ := stepped
    exact .pop w free
  | advance w => exact advance_taken s t w stepped

end Pskynet.GlobalQueue
