import Mathlib.Tactic
import Pskynet.Socket.Closing

set_option autoImplicit false

namespace Pskynet.Socket

open Transition Pskynet.Socket.Server

structure Subject where
  id : Int32
  opaqueValue : Nat
  closed : Prop

def Event.Names (e : Event) (subject : Subject) : Prop :=
  (∃ result, e.result = some result ∧ result.id = subject.id ∧
      result.opaqueValue = subject.opaqueValue) ∧
    (e.code = .close ∨ e.code = .error → subject.closed)

def AllNamed (events : List Event) (subject : Subject) : Prop :=
  ∀ e ∈ events, e.code ≠ .exit → e.Names subject

namespace SnSocket

-- Its handle has been given to `uv_close`, or the slot is free.
def IsClosed (s : SnSocket) : Prop := s.closeCalled = true ∨ s.type = .invalid

def itself (s : SnSocket) : Subject where
  id := s.id
  opaqueValue := s.opaqueValue
  closed := s.IsClosed

-- The socket of a command that takes `s` to `t`: the one it opens, the one in the slot, or one that
-- is not there any more.
def subject (s t : SnSocket) : Command → Subject
  | .connect id opaqueValue | .bind id opaqueValue => ⟨id, opaqueValue, t.IsClosed⟩
  | .start id opaqueValue | .close id opaqueValue =>
      if s.missing id then ⟨id, opaqueValue, True⟩ else t.itself
  | _ => t.itself

def writeFails (s : SnSocket) (u : Results) : Bool :=
  !u.writes && !(s.protocol = .tcp && s.write)

def ReportsCommand (s : SnSocket) (c : Command) (u : Results) : Prop :=
  match c with
  | .close id opaqueValue =>
      s.missing id ∨
        if s.sendBufferEmpty then s.type = .reserve ∨ opaqueValue = s.opaqueValue
        else ¬s.writeFails u
  | .send id priority _ =>
      s.missing id ∨ s.type = .halfclose ∨ s.protocol ≠ .tcp ∨ ¬s.writeFails u ∨
        (priority = .low ∧ ¬(s.sendBufferEmpty ∧ s.type = .connected))
  | .sendUdp id _ _ => s.missing id ∨ s.type = .halfclose ∨ s.protocol ≠ .tcp ∨ ¬s.writeFails u
  | .setUdp id address =>
      s.missing id ∨ address.head? = some s.protocol.number ∨ s.closeCalled
  | _ => True

def ReportsCallback (s : SnSocket) (k : Callback) (u : Results) : Prop :=
  match k with
  | .sent success =>
      match s.requests with
      | [] => True
      | request :: _ =>
          request.udp ∨ (success ∧ (u.writes ∨ (s.list request.list).tail = []))
  | _ => True

variable {s t : SnSocket} {id : Int32} {opaqueValue : Nat} {u : Results} {events : List Event}

theorem allNamed_nil (subject : Subject) : AllNamed [] subject := by
  intro e member
  contradiction

theorem allNamed_singleton (e : Event) (subject : Subject) (about : e.code ≠ .exit) :
    AllNamed [e] subject ↔ e.Names subject := by
  simp [AllNamed, about]

theorem unfilled_not_named (code : Code) (subject : Subject) (about : code ≠ .exit) :
    ¬AllNamed [{ code := code, result := none }] subject := by
  rw [allNamed_singleton _ _ about]
  rintro ⟨⟨_, filled, _⟩, _⟩
  contradiction

theorem closeAndReport_named (code : Code) (about : code ≠ .exit)
    (done : s.closeAndReport code = (t, events)) : AllNamed events t.itself := by
  simp only [closeAndReport, forceClose] at done
  split_ifs at done with free reserved <;> simp only [Prod.mk.injEq] at done <;>
    obtain ⟨rfl, rfl⟩ := done
  · rw [allNamed_singleton _ _ about]
    exact ⟨⟨_, rfl, rfl, rfl⟩, fun _ => .inr free⟩
  · exact allNamed_nil _
  · rw [allNamed_singleton _ _ about]
    exact ⟨⟨_, rfl, rfl, rfl⟩, fun _ => .inl rfl⟩

theorem sendBuffer_fails (left : s.sendBufferEmpty = false) :
    (s.sendBuffer u.writes).2 = s.writeFails u := by
  cases high : s.high with
  | nil =>
    cases low : s.low with
    | nil => simp [sendBufferEmpty, high, low] at left
    | cons buffer rest =>
      cases tcp : s.protocol <;> cases write : s.write <;>
        simp [sendBuffer, sendList, sendListTcp, sendListUdp, list, high, low, tcp, write, writeFails]
  | cons buffer rest =>
    cases tcp : s.protocol <;> cases write : s.write <;> cases writes : u.writes <;>
      simp [sendBuffer, sendList, sendListTcp, sendListUdp, list, high, tcp, write, writes, writeFails,
        uvWrite, uvCall]

theorem closeSocket_named (done : s.closeSocket id opaqueValue u = (t, events)) :
    AllNamed events (s.subject t (.close id opaqueValue)) ↔
      s.ReportsCommand (.close id opaqueValue) u := by
  cases here : s.missing id with
  | true =>
    simp only [closeSocket, here, if_true, Prod.mk.injEq] at done
    obtain ⟨rfl, rfl⟩ := done
    rw [allNamed_singleton _ _ (by simp)]
    simp [Event.Names, subject, here, ReportsCommand]
  | false =>
    have mine : s.id = id := by
      simp only [missing, Bool.or_eq_false_iff, decide_eq_false_iff_not, not_not, ne_eq] at here
      exact here.2
    have used := missing_false here
    simp only [subject, here, ReportsCommand, Bool.false_eq_true, if_false, false_or]
    cases empty : s.sendBufferEmpty with
    | true =>
      simp only [closeSocket, here, empty, if_true, Bool.false_eq_true, if_false] at done
      by_cases reserved : s.type = .reserve
      · simp only [forceClose, reserved, if_true, if_false, reduceCtorEq, Prod.mk.injEq] at done
        rw [← done.2]
        simp [allNamed_nil, reserved]
      · simp only [forceClose, used, reserved, if_false, Prod.mk.injEq] at done
        obtain ⟨rfl, rfl⟩ := done
        rw [allNamed_singleton _ _ (by simp)]
        simp [Event.Names, itself, uvClose, IsClosed, mine, reserved]
    | false =>
      simp only [Bool.false_eq_true, if_false]
      have fails := sendBuffer_fails (u := u) empty
      have lists := sendBuffer_wrote s u.writes
      simp only [closeSocket, here, empty, Bool.false_eq_true, if_false] at done
      rcases sent : s.sendBuffer u.writes with ⟨v, _ | _⟩ <;> rw [sent] at done fails lists
      · have kept : v.sendBufferEmpty = false := by
          obtain ⟨_, _, _, _, rfl, _⟩ := lists
          exact empty
        simp only [kept, Bool.false_eq_true, if_false, Prod.mk.injEq] at done
        rw [← done.2, ← fails]
        simp [allNamed_nil]
      · simp only [Prod.mk.injEq] at done
        rw [← done.2, ← fails]
        simp [unfilled_not_named]

theorem startSocket_named (done : s.startSocket id opaqueValue u = (t, events)) :
    AllNamed events (s.subject t (.start id opaqueValue)) := by
  cases here : s.missing id with
  | true =>
    simp only [startSocket, here, if_true, Prod.mk.injEq] at done
    rw [← done.2, allNamed_singleton _ _ (by simp)]
    simp [Event.Names, subject, here]
  | false =>
    have mine : s.id = id := by
      simp only [missing, Bool.or_eq_false_iff, decide_eq_false_iff_not, not_not, ne_eq] at here
      exact here.2
    simp only [subject, here, Bool.false_eq_true, if_false]
    simp only [startSocket, here, Bool.false_eq_true, if_false] at done
    split at done
    · split at done
      · simp only [Prod.mk.injEq] at done
        obtain ⟨rfl, rfl⟩ := done
        rw [allNamed_singleton _ _ (by simp)]
        exact ⟨⟨_, rfl, mine.symm, rfl⟩, by simp⟩
      · exact closeAndReport_named .error (by simp) done
    · simp only [Prod.mk.injEq] at done
      obtain ⟨rfl, rfl⟩ := done
      rw [allNamed_singleton _ _ (by simp)]
      exact ⟨⟨_, rfl, mine.symm, rfl⟩, by simp⟩
    · split at done
      · simp only [Prod.mk.injEq] at done
        obtain ⟨rfl, rfl⟩ := done
        rw [allNamed_singleton _ _ (by simp)]
        exact ⟨⟨_, rfl, mine.symm, rfl⟩, by simp⟩
      · exact closeAndReport_named .error (by simp) done
    · simp only [Prod.mk.injEq] at done
      rw [← done.2]
      exact allNamed_nil _

theorem openSocket_named (done : s.openSocket id opaqueValue u = some (t, events)) :
    AllNamed events ⟨id, opaqueValue, t.IsClosed⟩ := by
  simp only [openSocket] at done
  split at done
  · simp only [Option.some.injEq, Prod.mk.injEq] at done
    obtain ⟨rfl, rfl⟩ := done
    rw [allNamed_singleton _ _ (by simp)]
    exact ⟨⟨_, rfl, rfl, rfl⟩, fun _ => .inr rfl⟩
  · split at done
    · contradiction
    · simp only [Option.some.injEq, Prod.mk.injEq] at done
      obtain ⟨rfl, rfl⟩ := done
      rw [allNamed_singleton _ _ (by simp)]
      exact ⟨⟨_, rfl, rfl, rfl⟩, fun _ => .inr rfl⟩
    · split_ifs at done <;> simp only [Option.some.injEq, Prod.mk.injEq] at done <;>
        obtain ⟨rfl, rfl⟩ := done
      · exact allNamed_nil _
      · rw [allNamed_singleton _ _ (by simp)]
        exact ⟨⟨_, rfl, rfl, rfl⟩, fun _ => .inr rfl⟩

theorem bindSocket_named (done : s.bindSocket id opaqueValue u = some (t, events)) :
    AllNamed events ⟨id, opaqueValue, t.IsClosed⟩ := by
  simp only [bindSocket] at done
  split at done
  · contradiction
  · rename_i fd
    simp only [Option.some.injEq, Prod.mk.injEq] at done
    obtain ⟨rfl, rfl⟩ := done
    obtain ⟨_, ⟨made, _⟩ | ⟨_, rfl, _⟩⟩ := newFd_cases _ _ _ _ _ _ _ _ _ fd
    · contradiction
    · rw [allNamed_singleton _ _ (by simp)]
      exact ⟨⟨_, rfl, rfl, rfl⟩, fun _ => .inl rfl⟩
  · simp only [Option.some.injEq, Prod.mk.injEq] at done
    obtain ⟨rfl, rfl⟩ := done
    rw [allNamed_singleton _ _ (by simp)]
    exact ⟨⟨_, rfl, rfl, rfl⟩, by simp⟩

theorem listenSocket_silent (done : s.listenSocket id opaqueValue u = some (t, events)) :
    events = [] := by
  simp only [listenSocket] at done
  split at done
  · contradiction
  · simp only [Option.some.injEq, Prod.mk.injEq] at done
    exact done.2.symm
  · split_ifs at done <;> simp only [Option.some.injEq, Prod.mk.injEq] at done <;>
      exact done.2.symm

theorem addUdpSocket_silent (v6 : Bool)
    (done : s.addUdpSocket id v6 opaqueValue u = some (t, events)) : events = [] := by
  simp only [addUdpSocket] at done
  split at done
  · simp only [Option.some.injEq, Prod.mk.injEq] at done
    exact done.2.symm
  · contradiction

theorem appendSendbuffer_events (tcp : s.protocol = .tcp) (priority : Priority)
    (data : List UInt8) :
    (s.appendSendbuffer priority data u.writes).2 =
      if s.writeFails u then [{ code := .close, result := none }] else [] := by
  cases write : s.write with
  | true => simp [appendSendbuffer, append, setList, write, writeFails, tcp]
  | false =>
    have fails := sendBuffer_fails (u := u) (s := s.append .high ⟨priority, data, []⟩) (by
      simp [sendBufferEmpty, append, setList])
    have same : (s.append .high ⟨priority, data, []⟩).writeFails u = s.writeFails u := rfl
    rw [same] at fails
    simp only [appendSendbuffer]
    rw [if_neg (by simp [append, setList, write]), reportRefusal_snd, fails]

theorem sendSocket_named (priority : Priority) (address : Option (List UInt8)) (data : List UInt8)
    (done : s.sendSocket id priority address data u = some (t, events)) (subject : Subject) :
    AllNamed events subject ↔
      s.missing id ∨ s.type = .halfclose ∨ s.protocol ≠ .tcp ∨ ¬s.writeFails u ∨
        (priority = .low ∧ ¬(s.sendBufferEmpty ∧ s.type = .connected)) := by
  have appended := fun tcp => appendSendbuffer_events (u := u) (s := s) tcp priority data
  have reported : s.protocol = .tcp → s.appendSendbuffer priority data u.writes = (t, events) →
      (AllNamed events subject ↔ ¬s.writeFails u) := by
    intro tcp is
    have list := appended tcp
    rw [is] at list
    simp only at list
    rw [list]
    split_ifs with fails
    · simp [fails, unfilled_not_named]
    · simp [fails, allNamed_nil]
  simp only [sendSocket] at done
  split at done
  · rename_i dropped
    simp only [Option.some.injEq, Prod.mk.injEq] at done
    rw [← done.2]
    rcases dropped with missing | half
    · simp [allNamed_nil, missing]
    · simp [allNamed_nil, half]
  · rename_i kept
    push Not at kept
    obtain ⟨here, half⟩ := kept
    split at done
    · contradiction
    · split_ifs at done with direct tcp tcp low <;> simp only [Option.some.injEq] at done
      · rw [reported tcp done]
        simp [here, tcp, direct]
      · rw [← (Prod.mk.inj done).2]
        simp [allNamed_nil, tcp]
      · rw [← (Prod.mk.inj done).2]
        simp only [allNamed_nil, low, direct]
        simp
      · rw [reported tcp done]
        simp [here, half, tcp, low]
      · rw [← (Prod.mk.inj done).2]
        simp [allNamed_nil, tcp]

theorem setUdpAddress_named (address : List UInt8)
    (done : s.setUdpAddress id address = (t, events)) :
    AllNamed events t.itself ↔ s.ReportsCommand (.setUdp id address) u := by
  simp only [setUdpAddress] at done
  split at done
  · rename_i missing
    rw [← (Prod.mk.inj done).2]
    simp [allNamed_nil, ReportsCommand, missing]
  · rename_i here
    have used : s.type ≠ .invalid := missing_false (by simpa using here)
    split at done
    · rename_i mismatch
      simp only [Prod.mk.injEq] at done
      obtain ⟨rfl, rfl⟩ := done
      rw [allNamed_singleton _ _ (by simp)]
      simp [Event.Names, itself, IsClosed, ReportsCommand, used, here, mismatch]
    · rename_i same
      rw [← (Prod.mk.inj done).2]
      push Not at same
      simp [allNamed_nil, ReportsCommand, same]

theorem ctrlCmd_named (c : Command) (done : s.ctrlCmd c u = some (t, events)) :
    AllNamed events (s.subject t c) ↔ s.ReportsCommand c u := by
  cases c with
  | start id opaqueValue =>
    simp only [ctrlCmd, Option.some.injEq] at done
    simp only [ReportsCommand, iff_true]
    exact startSocket_named done
  | bind id opaqueValue =>
    rw [ctrlCmd] at done
    obtain ⟨_, _, opened⟩ := opening_cases s t id events _ done
    simp only [ReportsCommand, iff_true]
    exact bindSocket_named opened
  | listen id opaqueValue =>
    rw [ctrlCmd] at done
    obtain ⟨_, _, opened⟩ := opening_cases s t id events _ done
    rw [listenSocket_silent opened]
    simp [ReportsCommand, allNamed_nil]
  | close id opaqueValue =>
    simp only [ctrlCmd, Option.some.injEq] at done
    exact closeSocket_named done
  | connect id opaqueValue =>
    rw [ctrlCmd] at done
    obtain ⟨_, _, opened⟩ := opening_cases s t id events _ done
    simp only [ReportsCommand, iff_true]
    exact openSocket_named opened
  | exit =>
    simp only [ctrlCmd, Option.some.injEq, Prod.mk.injEq] at done
    rw [← done.2]
    simp [ReportsCommand, AllNamed]
  | send id priority data => exact sendSocket_named priority none data done _
  | sendUdp id address data =>
    rw [sendSocket_named .high (some address) data done]
    simp [ReportsCommand]
  | setUdp id address =>
    simp only [ctrlCmd, Option.some.injEq] at done
    exact setUdpAddress_named address done
  | setopt id =>
    simp only [ctrlCmd, Option.some.injEq, Prod.mk.injEq] at done
    rw [← done.2]
    simp [ReportsCommand, allNamed_nil]
  | udp id v6 opaqueValue =>
    rw [ctrlCmd] at done
    obtain ⟨_, _, opened⟩ := opening_cases s t id events _ done
    rw [addUdpSocket_silent v6 opened]
    simp [ReportsCommand, allNamed_nil]

theorem sendListTcp_fails (s : SnSocket) (which : Priority) (writes : Bool)
    (free : s.write = false) :
    (s.sendListTcp which writes).2 = (!writes && !(s.list which).isEmpty) := by
  simp only [sendListTcp, free, Bool.false_eq_true, if_false]
  split
  · rename_i empty
    simp [empty]
  · rename_i filled
    simp [filled]

theorem written_named (which : Priority) (success : Bool)
    (done : s.written which success u = some (t, events)) (subject : Subject) :
    AllNamed events subject ↔ success ∧ (u.writes ∨ (s.list which).tail = []) := by
  simp only [written] at done
  split at done
  · rename_i failed
    simp only [Option.some.injEq, Prod.mk.injEq] at done
    rw [← done.2]
    simp [failed, unfilled_not_named]
  · rename_i ok
    rw [Bool.not_eq_true, Bool.not_eq_false] at ok
    split at done
    · contradiction
    · rename_i buffer tail list
      change s.list which = buffer :: tail at list
      rw [list, List.tail_cons]
      have left : ({ s with write := false }.setList which tail).list which = tail := by
        cases which <;> rfl
      have reported := congrArg Prod.snd (Option.some.inj done)
      rw [reportRefusal_snd, sendListTcp_fails _ which u.writes rfl] at reported
      obtain rfl : _ = events := reported
      change AllNamed (if (!u.writes && !(({ s with write := false }.setList which tail).list
        which).isEmpty) = true then _ else _) subject ↔ _
      rw [left]
      cases tail <;> cases u.writes <;> simp [ok, allNamed_nil, unfilled_not_named]

theorem udpSent_silent (which : Priority) (success : Bool)
    (done : s.udpSent which success u = some (t, events)) : events = [] := by
  simp only [udpSent] at done
  split at done
  · simp only [Option.some.injEq, Prod.mk.injEq] at done
    exact done.2.symm
  · split at done
    · contradiction
    · simp only [Option.some.injEq, Prod.mk.injEq] at done
      exact done.2.symm

theorem callback_named (k : Callback) (done : s.callback k u = some (t, events)) :
    AllNamed events t.itself ↔ s.ReportsCallback k u := by
  cases k with
  | read received =>
    simp only [ReportsCallback, iff_true]
    simp only [callback, read] at done
    split_ifs at done
    split at done <;> simp only [Option.some.injEq] at done
    · exact closeAndReport_named .error (by simp) done
    · rw [← (Prod.mk.inj done).2]
      exact allNamed_nil _
    · simp only [Prod.mk.injEq] at done
      obtain ⟨rfl, rfl⟩ := done
      rw [allNamed_singleton _ _ (by simp)]
      exact ⟨⟨_, rfl, rfl, rfl⟩, by simp⟩
  | connected success peer =>
    simp only [ReportsCallback, iff_true]
    simp only [callback, SnSocket.connected] at done
    split_ifs at done <;> simp only [Option.some.injEq] at done
    · simp only [Prod.mk.injEq] at done
      obtain ⟨rfl, rfl⟩ := done
      rw [allNamed_singleton _ _ (by simp)]
      exact ⟨⟨_, rfl, rfl, rfl⟩, by simp⟩
    · exact closeAndReport_named .error (by simp) done
    · exact closeAndReport_named .error (by simp) done
  | sent success =>
    simp only [callback, sent] at done
    simp only [ReportsCallback]
    cases queue : s.requests with
    | nil => simp [queue] at done
    | cons request rest =>
      simp only [queue] at done
      split at done
      · rename_i udp
        rw [udpSent_silent _ success done]
        simp [allNamed_nil, udp]
      · rename_i tcp
        rw [written_named _ success done]
        simp only [tcp, Bool.false_eq_true, false_or]
        cases request.list <;> rfl
  | connection =>
    simp only [ReportsCallback, iff_true]
    simp only [callback, connectionFailed] at done
    split_ifs at done
    simp only [Option.some.injEq] at done
    exact closeAndReport_named .error (by simp) done
  | closed =>
    simp only [ReportsCallback, iff_true]
    simp only [callback, SnSocket.closed] at done
    split_ifs at done
    simp only [Option.some.injEq, Prod.mk.injEq] at done
    rw [← done.2]
    exact allNamed_nil _

end SnSocket

namespace Server

def subject (sv after : Server) : Action → Subject
  | .command c _ => (sv.slot (hashId c.id)).subject (after.slot (hashId c.id)) c
  | .callback i _ _ | .connection i _ _ => (after.slot i).itself
  | .reserve => (after.slot 0).itself

def Reports (sv : Server) : Action → Prop
  | .command c u => (sv.slot (hashId c.id)).ReportsCommand c u
  | .callback i k u => (sv.slot i).ReportsCallback k u
  | _ => True

end Server

theorem events_named (sv after : Server) (a : Action) (events : List Event)
    (taken : sv.step a = some (after, events)) :
    AllNamed events (sv.subject after a) ↔ sv.Reports a := by
  cases a with
  | reserve =>
    simp only [step, Option.some.injEq, Prod.mk.injEq] at taken
    rw [← taken.2]
    simp [Server.Reports, SnSocket.allNamed_nil]
  | command c u =>
    simp only [step, Option.map_eq_some_iff, Prod.exists, Prod.mk.injEq] at taken
    obtain ⟨s, _, done, rfl, rfl⟩ := taken
    simpa [Server.subject, Server.Reports, setSlot] using SnSocket.ctrlCmd_named c done
  | callback i k u =>
    simp only [step] at taken
    split_ifs at taken
    simp only [Option.map_eq_some_iff, Prod.exists, Prod.mk.injEq] at taken
    obtain ⟨s, _, done, rfl, rfl⟩ := taken
    simpa [Server.subject, Server.Reports, setSlot] using SnSocket.callback_named k done
  | connection i peer u =>
    simp only [Server.Reports, iff_true]
    simp only [step] at taken
    split_ifs at taken
    simp only [reportAccept] at taken
    split at taken
    · rw [← (Prod.mk.inj (Option.some.inj taken)).2]
      exact SnSocket.allNamed_nil _
    · split at taken
      · contradiction
      · rw [← (Prod.mk.inj (Option.some.inj taken)).2]
        exact SnSocket.allNamed_nil _
      · simp only [Option.some.injEq, Prod.mk.injEq] at taken
        obtain ⟨rfl, rfl⟩ := taken
        rw [SnSocket.allNamed_singleton _ _ (by simp)]
        exact ⟨⟨_, rfl, rfl, rfl⟩, by simp⟩

def Server.bound : Server :=
  ((run next Server.blank [.reserve, .command (.bind 1 7) .success]).getD Server.blank)

theorem read_error_named :
    ∃ after events, Server.bound.step (.callback 1 (.read none) .success) = some (after, events) ∧
      events.length = 1 ∧
      AllNamed events (Server.bound.subject after (.callback 1 (.read none) .success)) :=
  ⟨_, _, rfl, rfl, (events_named Server.bound _ (.callback 1 (.read none) .success) _ rfl).mpr trivial⟩

theorem refused_write_unnamed :
    (∃ after, Server.bound.step
        (.command (.send 1 .high [42]) { Results.success with writes := false }) =
          some (after, [{ code := .close, result := none }])) ∧
      ∃ after result, Server.bound.step (.command (.setUdp 1 [1]) .success) =
          some (after, [{ code := .error, result := some result }]) ∧
        (after.slot 1).handle = .opened ∧ (after.slot 1).type = .bind ∧
        ¬AllNamed [{ code := .error, result := some result }]
          (Server.bound.subject after (.command (.setUdp 1 [1]) .success)) := by
  refine ⟨⟨_, rfl⟩, _, _, rfl, rfl, rfl, ?_⟩
  intro named
  obtain ⟨_, closed⟩ := named _ (List.mem_singleton_self _) (by simp)
  rcases closed (.inr rfl) with called | free
  · contradiction
  · contradiction

end Pskynet.Socket
