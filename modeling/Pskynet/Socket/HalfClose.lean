import Mathlib.Tactic
import Pskynet.Socket.Events
import Pskynet.Socket.Writes

set_option autoImplicit false

namespace Pskynet.Socket

open Transition Pskynet.Socket.Server

-- What can happen to one socket: sends, close requests and the callbacks of its writes and of
-- `uv_close`.
inductive ClosingAction where
  | send (priority : Priority) (data : List UInt8) (u : Results)
  | close (opaqueValue : Nat) (u : Results)
  | sent (success : Bool) (u : Results)
  | closed

-- A socket with the number of its close requests and of the events `SN_SOCKET_CLOSE` that name it.
structure Closing where
  socket : SnSocket
  requested : Nat
  reported : Nat

def Event.closes (id : Int32) (e : Event) : Bool :=
  e.code = .close && e.result.map Message.id = some id

namespace Closing

def after (c : Closing) (requests : Nat) (result : Option (SnSocket × List Event)) :
    Option Closing :=
  result.map fun (s, events) =>
    { socket := s
      requested := c.requested + requests
      reported := c.reported + events.countP (Event.closes c.socket.id) }

def step (c : Closing) : ClosingAction → Option Closing
  | .send priority data u => c.after 0 (c.socket.ctrlCmd (.send c.socket.id priority data) u)
  | .close opaqueValue u => c.after 1 (c.socket.ctrlCmd (.close c.socket.id opaqueValue) u)
  | .sent success u => c.after 0 (c.socket.callback (.sent success) u)
  | .closed => c.after 0 (c.socket.callback .closed .success)

def Settled (c : Closing) : ClosingAction → Prop
  | .close _ _ => c.socket.type = .invalid ∨ c.socket.sendBufferEmpty
  | _ => True

-- Once its data is out, a socket that is marked was given to `uv_close`, and every close request was
-- answered.
structure Closes (c : Closing) : Prop where
  marked : c.socket.type = .halfclose → c.socket.requests = [] → c.socket.high = [] →
    c.socket.low = [] → c.socket.closeCalled = true
  answered : c.socket.requests = [] → c.socket.high = [] → c.socket.low = [] →
    c.reported = c.requested

structure Answered (c : Closing) : Prop where
  type : c.socket.type = .connected ∨ c.socket.type = .invalid
  reported : c.reported = c.requested

theorem countP_unnamed {events : List Event} (id : Int32)
    (unnamed : ∀ e ∈ events, e.result = none) : events.countP (Event.closes id) = 0 := by
  rw [List.countP_eq_zero]
  intro e member
  simp [Event.closes, unnamed e member]

theorem refusal_unnamed {sent : SnSocket × Bool} {e : Event}
    (member : e ∈ (SnSocket.reportRefusal sent).2) : e.result = none := by
  rw [SnSocket.reportRefusal_snd] at member
  split_ifs at member
  · rw [List.mem_singleton] at member
    rw [member]
  · contradiction

theorem appendSendbuffer_unnamed {s : SnSocket} {priority : Priority} {data : List UInt8}
    {writes : Bool} {e : Event} (member : e ∈ (s.appendSendbuffer priority data writes).2) :
    e.result = none := by
  simp only [SnSocket.appendSendbuffer] at member
  split at member
  · contradiction
  · exact refusal_unnamed member

theorem sendSocket_unnamed {s t : SnSocket} {id : Int32} {priority : Priority}
    {address : Option (List UInt8)} {data : List UInt8} {u : Results} {events : List Event}
    (done : s.sendSocket id priority address data u = some (t, events)) :
    ∀ e ∈ events, e.result = none := by
  intro e member
  simp only [SnSocket.sendSocket] at done
  split_ifs at done <;> simp only [Option.some.injEq] at done
  · rw [← (Prod.mk.inj done).2] at member
    contradiction
  · exact appendSendbuffer_unnamed (by rw [done]; exact member)
  · rw [← (Prod.mk.inj done).2] at member
    contradiction
  · rw [← (Prod.mk.inj done).2] at member
    contradiction
  · exact appendSendbuffer_unnamed (by rw [done]; exact member)
  · rw [← (Prod.mk.inj done).2] at member
    contradiction

theorem sent_unnamed {s t : SnSocket} {success : Bool} {u : Results} {events : List Event}
    (done : s.sent success u = some (t, events)) : ∀ e ∈ events, e.result = none := by
  intro e member
  simp only [SnSocket.sent] at done
  split at done
  · contradiction
  · split at done
    · rw [SnSocket.udpSent_silent _ success done] at member
      contradiction
    · simp only [SnSocket.written] at done
      split at done
      · rw [← (Prod.mk.inj (Option.some.inj done)).2, List.mem_singleton] at member
        rw [member]
      · split at done
        · contradiction
        · exact refusal_unnamed (by rw [Option.some.inj done]; exact member)

theorem Answered.step {c d : Closing} (answered : Answered c) (a : ClosingAction)
    (settled : Settled c a) (taken : c.step a = some d) : Answered d := by
  cases a with
  | send priority data u =>
    simp only [Closing.step, after, Option.map_eq_some_iff, Prod.exists] at taken
    obtain ⟨t, events, done, rfl⟩ := taken
    have type : t.type = c.socket.type := by
      obtain ⟨_, rfl⟩ | ⟨_, _, _, _, _, _, _, _, _, _, rfl, _⟩ :=
        SnSocket.sendSocket_cases _ t _ _ _ _ u events done
      · rfl
      · rfl
    refine ⟨by rw [type]; exact answered.type, ?_⟩
    simp only [countP_unnamed _ (sendSocket_unnamed done), Nat.add_zero]
    exact answered.reported
  | close opaqueValue u =>
    simp only [Closing.step, after, SnSocket.ctrlCmd, Option.map_some, Option.some.injEq] at taken
    subst taken
    have mine : c.socket.missing c.socket.id = (c.socket.type = .invalid : Bool) := by
      simp [SnSocket.missing]
    rcases answered.type with connected | free
    · have empty : c.socket.sendBufferEmpty = true := by
        rcases settled with free | empty
        · rw [connected] at free
          contradiction
        · exact empty
      simp [SnSocket.closeSocket, mine, connected, empty, SnSocket.forceClose]
      exact ⟨.inl rfl, by simp [Event.closes, answered.reported]⟩
    · simp [SnSocket.closeSocket, mine, free]
      exact ⟨.inr free, by simp [Event.closes, answered.reported]⟩
  | sent success u =>
    simp only [Closing.step, after, SnSocket.callback, Option.map_eq_some_iff, Prod.exists] at taken
    obtain ⟨t, events, done, rfl⟩ := taken
    have type : t.type = c.socket.type := by
      obtain ⟨_, _, _, _, ⟨_, rfl⟩ | ⟨_, _, _, _, _, _, _, _, rfl, _⟩⟩ :=
        SnSocket.sent_cases _ t success u events done
      · rfl
      · rfl
    refine ⟨by rw [type]; exact answered.type, ?_⟩
    simp only [countP_unnamed _ (sent_unnamed done), Nat.add_zero]
    exact answered.reported
  | closed =>
    simp only [Closing.step, after, SnSocket.callback, SnSocket.closed, Option.map_eq_some_iff,
      Prod.exists] at taken
    obtain ⟨t, events, done, rfl⟩ := taken
    split_ifs at done
    simp only [Option.some.injEq, Prod.mk.injEq] at done
    obtain ⟨rfl, rfl⟩ := done
    exact ⟨.inr rfl, answered.reported⟩

end Closing

theorem close_requests_answered (start : SnSocket) (connected : start.Fresh)
    (c : Closing) (path : Path Closing.step Closing.Settled ⟨start, 0, 0⟩ c) : c.Closes := by
  have answered : c.Answered := by
    refine path.invariant Closing.Answered ?_ ⟨.inl connected.type, rfl⟩
    intro c a d answered settled taken
    exact answered.step a settled taken
  refine ⟨?_, fun _ _ _ => answered.reported⟩
  intro half
  rcases answered.type with type | type <;> rw [type] at half <;> contradiction

theorem sent_socket_closed :
    ∃ c, run Closing.step ⟨SnSocket.connectedTo .tcp, 0, 0⟩
        [.send .high [1] .success, .sent true .success, .close 7 .success] = some c ∧
      c.reported = 1 ∧ c.Closes := by
  have along : Along Closing.step Closing.Settled ⟨SnSocket.connectedTo .tcp, 0, 0⟩
      [.send .high [1] .success, .sent true .success, .close 7 .success] :=
    ⟨trivial, trivial, .inr rfl, trivial⟩
  exact ⟨_, rfl, rfl, close_requests_answered _ (connectedTo_fresh .tcp) _
    (Path.of_run _ (.refl _) along rfl)⟩
-- The close request marks the socket while a write is in flight, and `write_cb_` does not look at
-- the mark.
theorem half_closed_for_ever :
    ∃ c, run Closing.step ⟨SnSocket.connectedTo .tcp, 0, 0⟩
        [.send .high [1] .success, .close 7 .success, .sent true .success] = some c ∧
      c.socket.type = .halfclose ∧ c.socket.requests = [] ∧ c.socket.high = [] ∧
      c.socket.low = [] ∧ c.socket.closeCalled = false ∧ c.requested = 1 ∧ c.reported = 0 :=
  ⟨_, rfl, rfl, rfl, rfl, rfl, rfl, rfl, rfl⟩

end Pskynet.Socket
