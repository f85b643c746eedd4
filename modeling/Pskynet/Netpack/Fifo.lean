import Mathlib.Data.List.ReduceOption
import Pskynet.Netpack.Reassembly

set_option autoImplicit false

namespace Pskynet.Netpack

open Memory

inductive Call where
  | push (fd : Int) (buffer : List UInt8) (size : Nat) (clone : Bool)
  | pop

-- The queue at index 1 after the call, and what `lpop` returns.
def Call.run (q : Option Queue) : Call → Option Queue × List (Option Pack)
  | .push fd buffer size clone => (some (pushData q fd buffer size clone), [])
  | .pop =>
      match lpop q with
      | none => (q, [none])
      | some (pack, left) => (some left, [some pack])

def runCalls : Option Queue → List Call → Option Queue × List (Option Pack)
  | q, [] => (q, [])
  | q, call :: rest =>
      let (q, first) := call.run q
      let (q, later) := runCalls q rest
      (q, first ++ later)

section Abstract

variable {A : Type}

def fifo : List A → List (Option A) → List A × List (Option A)
  | waiting, [] => (waiting, [])
  | waiting, some x :: rest => fifo (waiting ++ [x]) rest
  | [], none :: rest =>
      let (waiting, later) := fifo [] rest
      (waiting, none :: later)
  | x :: waiting, none :: rest =>
      let (waiting, later) := fifo waiting rest
      (waiting, some x :: later)

theorem fifo_order (waiting : List A) (calls : List (Option A)) :
    waiting ++ calls.reduceOption =
      (fifo waiting calls).2.reduceOption ++ (fifo waiting calls).1 := by
  induction calls generalizing waiting with
  | nil => simp [fifo, List.reduceOption]
  | cons call rest ih =>
    cases call with
    | some x =>
      have later := ih (waiting ++ [x])
      rw [List.append_assoc] at later
      rw [List.reduceOption_cons_of_some, fifo]
      exact later
    | none =>
      rw [List.reduceOption_cons_of_none]
      cases waiting with
      | nil =>
        have later := ih []
        simpa [fifo] using later
      | cons x waiting =>
        have later := ih waiting
        simpa [fifo] using later

end Abstract

def Call.pack : Call → Option Pack
  | .push fd buffer size clone =>
      some
        { id := fd
          size := size
          buffer := if clone then memcpy (malloc size) 0 (buffer.take size) else buffer }
  | .pop => none

theorem getQueue_some (q : Queue) : getQueue (some q) = q := rfl

theorem runCalls_refines (q : Option Queue) (calls : List Call) :
    (getQueue (runCalls q calls).1).ring.contents =
        (fifo (getQueue q).ring.contents (calls.map Call.pack)).1 ∧
      (runCalls q calls).2 = (fifo (getQueue q).ring.contents (calls.map Call.pack)).2 ∧
      (getQueue (runCalls q calls).1).hash = (getQueue q).hash := by
  induction calls generalizing q with
  | nil => exact ⟨rfl, rfl, rfl⟩
  | cons call rest ih =>
    cases call with
    | push fd buffer size clone =>
      obtain ⟨contents, popped, hash⟩ := ih (some (pushData q fd buffer size clone))
      rw [getQueue_some, pushData_contents] at contents popped
      rw [getQueue_some, pushData_hash] at hash
      exact ⟨contents, popped, hash⟩
    | pop =>
      rw [runCalls, Call.run]
      cases here : lpop q with
      | none =>
        obtain ⟨contents, popped, hash⟩ := ih q
        rw [lpop_none q here] at contents popped ⊢
        refine ⟨contents, ?_, hash⟩
        exact congrArg (none :: ·) popped
      | some pair =>
        obtain ⟨first, left⟩ := pair
        obtain ⟨contents, popped, hash⟩ := ih (some left)
        obtain ⟨front, kept⟩ := lpop_some q first left here
        rw [getQueue_some] at contents popped hash
        rw [front]
        refine ⟨contents, ?_, hash.trans kept⟩
        exact congrArg (some first :: ·) popped

theorem expandQueue_hash (q : Queue) : (expandQueue q).hash = q.hash := rfl

theorem runCalls_fifo (q : Option Queue) (calls : List Call) :
    (runCalls q calls).2 = (fifo (getQueue q).ring.contents (calls.map Call.pack)).2 ∧
      (getQueue q).ring.contents ++ (calls.map Call.pack).reduceOption =
        (runCalls q calls).2.reduceOption ++ (getQueue (runCalls q calls).1).ring.contents ∧
      (getQueue (runCalls q calls).1).hash = (getQueue q).hash ∧
      ∀ full, (expandQueue full).hash = full.hash := by
  obtain ⟨contents, popped, hash⟩ := runCalls_refines q calls
  refine ⟨popped, ?_, hash, expandQueue_hash⟩
  rw [contents, popped]
  exact fifo_order _ _

end Pskynet.Netpack
