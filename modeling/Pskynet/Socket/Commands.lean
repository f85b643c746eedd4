import Mathlib.Logic.Function.Basic
import Mathlib.Tactic
import Pskynet.Socket.Closing

set_option autoImplicit false

namespace Pskynet.Socket

open Transition

-- The way of a command from a service thread to the loop: `between` marks the threads that are
-- between the two steps of `send_request`, `pending` is the flag that `uv_async_send` sets, and
-- `running` says that the loop is inside of `cmd_cb`.
structure CommandLoop where
  queue : List Command
  between : Nat → Bool
  pending : Bool
  running : Bool

inductive LoopAction where
  | push (thread : Nat) (c : Command)
  | wake (thread : Nat)
  | enter
  | pop (ret : Option Code)

namespace CommandLoop

def start : CommandLoop where
  queue := []
  between := fun _ => false
  pending := false
  running := false

-- `ret` is the result of `ctrl_cmd`, without a code for -1.
def step (l : CommandLoop) : LoopAction → Option CommandLoop
  | .push thread c =>
      if l.between thread then none
      else
        some
          { l with
            queue := l.queue ++ [c]
            between := Function.update l.between thread true }
  | .wake thread =>
      if l.between thread then
        some { l with pending := true, between := Function.update l.between thread false }
      else none
  | .enter =>
      if l.pending ∧ ¬l.running then some { l with pending := false, running := true } else none
  | .pop ret =>
      if l.running then
        match l.queue with
        | [] => some { l with running := false }
        | _ :: rest => some { l with queue := rest, running := ret.isNone }
      else none

def Unhurried (l : CommandLoop) : LoopAction → Prop
  | .pop (some _) => l.queue.length ≤ 1 ∨ l.pending = true ∨ ∃ thread, l.between thread = true
  | _ => True

def Awake (l : CommandLoop) : Prop :=
  l.pending = true ∨ l.running = true ∨ ∃ thread, l.between thread = true

def Attended (l : CommandLoop) : Prop := l.queue ≠ [] → l.Awake

theorem Attended.step {l next : CommandLoop} (_ : Attended l) (a : LoopAction)
    (unhurried : Unhurried l a) (taken : l.step a = some next) : Attended next := by
  cases a with
  | push thread c =>
    simp only [CommandLoop.step] at taken
    split_ifs at taken
    obtain rfl := Option.some.inj taken
    exact fun _ => .inr (.inr ⟨thread, Function.update_self ..⟩)
  | wake thread =>
    simp only [CommandLoop.step] at taken
    split_ifs at taken
    obtain rfl := Option.some.inj taken
    exact fun _ => .inl rfl
  | enter =>
    simp only [CommandLoop.step] at taken
    split_ifs at taken
    obtain rfl := Option.some.inj taken
    exact fun _ => .inr (.inl rfl)
  | pop ret =>
    simp only [CommandLoop.step] at taken
    split_ifs at taken
    split at taken
    · rename_i empty
      obtain rfl := Option.some.inj taken
      exact fun left => absurd empty left
    · rename_i c rest queue
      obtain rfl := Option.some.inj taken
      intro left
      cases ret with
      | none => exact .inr (.inl rfl)
      | some code =>
        rcases unhurried with last | pending | between
        · -- The command that was taken is not the only one.
          rw [queue, List.length_cons] at last
          have none_ : rest = [] := List.length_eq_zero_iff.mp (by omega)
          exact absurd none_ left
        · exact .inl pending
        · exact .inr (.inr between)

end CommandLoop

theorem commands_served {l : CommandLoop}
    (path : Path CommandLoop.step CommandLoop.Unhurried CommandLoop.start l)
    (sent : ∀ thread, l.between thread = false) (pending : l.pending = false)
    (running : l.running = false) : l.queue = [] := by
  have attended : l.Attended := by
    refine path.invariant CommandLoop.Attended ?_ (fun left => absurd rfl left)
    intro l a next attended unhurried taken
    exact attended.step a unhurried taken
  by_contra left
  rcases attended left with due | inside | ⟨thread, between⟩
  · rw [pending] at due
    contradiction
  · rw [running] at inside
    contradiction
  · rw [sent thread] at between
    contradiction

def startOneByOne : List LoopAction :=
  [.push 0 (.start 5 7), .wake 0, .enter, .pop (some .error), .push 1 (.start 6 8), .wake 1, .enter,
    .pop (some .error)]

theorem single_commands_served :
    ∃ l, run CommandLoop.step CommandLoop.start startOneByOne = some l ∧ l.queue = [] := by
  have along : Along CommandLoop.step CommandLoop.Unhurried CommandLoop.start startOneByOne :=
    ⟨trivial, trivial, trivial, .inl le_rfl, trivial, trivial, trivial, .inl le_rfl, trivial⟩
  have path := fun l => @Path.of_run _ _ CommandLoop.step CommandLoop.Unhurried startOneByOne
    CommandLoop.start CommandLoop.start l (.refl _) along
  refine ⟨_, rfl, commands_served (path _ rfl) ?_ rfl rfl⟩
  intro thread
  by_cases first : thread = 0
  · subst first
    rfl
  · by_cases second : thread = 1
    · subst second
      rfl
    · simp [Function.update_of_ne second, CommandLoop.start]

theorem second_command_stalls :
    ((Server.blank.step (.command (.start 5 7) .success)).map Prod.snd =
        some [{ code := .error, result := some ⟨5, 7, 0, .null⟩ }]) ∧
      ∃ l, run CommandLoop.step CommandLoop.start
          [.push 0 (.start 5 7), .push 1 (.start 6 8), .wake 0, .wake 1, .enter,
            .pop (some .error)] = some l ∧
        (∀ thread, l.between thread = false) ∧ l.pending = false ∧ l.running = false ∧
        l.queue = [.start 6 8] := by
  refine ⟨rfl, _, rfl, ?_, rfl, rfl, rfl⟩
  intro thread
  by_cases second : thread = 1
  · subst second
    rfl
  · by_cases first : thread = 0
    · subst first
      rfl
    · simp [Function.update_of_ne first, Function.update_of_ne second, CommandLoop.start]

end Pskynet.Socket
