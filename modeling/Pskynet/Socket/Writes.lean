import Mathlib.Tactic
import Pskynet.Socket.Closing

set_option autoImplicit false

namespace Pskynet.Socket

open Transition Pskynet.Socket.Server

@[simp] theorem bytes_append (list : List WriteBuffer) (buffer : WriteBuffer) :
    bytes (list ++ [buffer]) = bytes list + buffer.data.length := by
  simp [bytes]

@[simp] theorem bytes_cons (list : List WriteBuffer) (buffer : WriteBuffer) :
    bytes (buffer :: list) = buffer.data.length + bytes list := by
  simp [bytes]

namespace SnSocket

variable {s t : SnSocket}

-- Every append adds to `wb_size`, and nothing takes from it.
def Sized (s : SnSocket) : Prop :=
  s.handle = .opened → s.wbSize = bytes s.high + bytes s.low + s.completed

theorem append_sized (sized : Sized s) (which : Priority) (buffer : WriteBuffer) :
    Sized (s.append which buffer) := by
  intro opened
  have before := sized opened
  cases which <;> simp [append, setList, list, before] <;> omega

theorem Sized.wrote (sized : Sized s) (wrote : s.Wrote t) : Sized t := by
  obtain ⟨_, _, _, _, rfl, _⟩ := wrote
  exact sized

theorem Sized.forceClose (sized : Sized s) : Sized s.forceClose.1 := by
  obtain ⟨_, same⟩ | ⟨_, same⟩ | ⟨_, _, same⟩ := s.forceClose_cases <;> rw [same]
  · exact sized
  · exact sized
  · intro opened
    simp only [uvClose] at opened
    split_ifs at opened
    contradiction

theorem Sized.of_made {id : Int32} (made : s.Made id t) : Sized t := by
  cases made with
  | refused => simp [Sized, abandoned]
  | unbound => simp [Sized, initialised, uvClose]
  | connects _ _ high low => simp [Sized, initialised, high, low, bytes]
  | opened _ _ _ _ _ _ high low => simp [Sized, initialised, high, low, bytes]

theorem Sized.commanded {c : Command} {u : Results} (sized : Sized s)
    (commanded : s.Commanded c u t) : Sized t := by
  cases commanded with
  | same => exact sized
  | addressed => exact sized
  | started _ _ _ _ starting =>
    cases starting with
    | same => exact sized
    | transfer => exact sized
    | reads => exact sized
    | readFails => exact Sized.forceClose sized
    | listens => exact sized
    | listenFails => exact Sized.forceClose sized
  | closed => exact sized.forceClose
  | halfClosed _ _ v _ _ _ _ wrote =>
    have after : Sized v := sized.wrote wrote
    exact after
  | appended which buffer _ _ _ _ _ _ wrote => exact (append_sized sized which buffer).wrote wrote
  | unresolved => exact sized
  | unconnected _ _ _ _ _ _ high low => simp [Sized, initialised, high, low, bytes]
  | made _ _ _ made => exact .of_made made

theorem Sized.calledBack (sized : Sized s) (calledBack : s.CalledBack t) : Sized t := by
  cases calledBack with
  | same => exact sized
  | readError => exact Sized.forceClose sized
  | connectError => exact Sized.forceClose sized
  | readFails => exact Sized.forceClose sized
  | connected => exact sized
  | sendError => exact sized
  | sent request _ _ buffer tail _ _ list wrote =>
    refine Sized.wrote ?_ wrote
    intro opened
    have before := sized opened
    cases which : request.list <;> rw [which] at list <;> simp only [SnSocket.list] at list <;>
      rw [list, bytes_cons] at before <;> simp [setList] <;> omega
  | listenError => exact sized.forceClose
  | closed => simp [Sized]

end SnSocket

theorem sized_kept : Kept (fun _ s => s.Sized) fun _ _ _ => True where
  reserve _ _ _ sized _ := sized
  accepted s id opaqueValue u after made _ _ _ done :=
    .of_made (SnSocket.accepted_made s after id opaqueValue u made done)
  command s c u after events sized _ done :=
    sized.commanded (SnSocket.ctrlCmd_commanded s after c u events done)
  callback _ s k u after events sized done :=
    sized.calledBack (SnSocket.callback_calledBack s after k u events done)

theorem wbSize_exact (memory : Nat → SnSocket) (allocId : Int32) (actions : List Action)
    (sv : Server) (reached : run next (create memory allocId) actions = some sv) (i : Nat)
    (opened : (sv.slot i).handle = .opened) :
    (sv.slot i).wbSize = bytes (sv.slot i).high + bytes (sv.slot i).low ↔
      (sv.slot i).completed = 0 := by
  have sized := run_invariant next (fun sv => ∀ i, (sv.slot i).Sized)
    (fun sv a after all taken => next_all sized_kept sv after a all (by cases a <;> trivial) taken)
    actions _ sv (fun i => by simp [create, SnSocket.Sized]) reached
  have total := sized i opened
  omega

def oneByteSent : List Action :=
  [.reserve, .command (.bind 1 7) .success, .command (.send 1 .high [42]) .success]

theorem unwritten_byte_counted :
    ∃ sv, run next Server.blank oneByteSent = some sv ∧ (sv.slot 1).completed = 0 ∧
      (sv.slot 1).wbSize = bytes (sv.slot 1).high + bytes (sv.slot 1).low := by
  refine ⟨_, rfl, rfl, ?_⟩
  exact (wbSize_exact (fun _ => SnSocket.blank) 0 oneByteSent _ rfl 1 rfl).mpr rfl

theorem written_byte_still_counted :
    ∃ sv, run next Server.blank (oneByteSent ++ [.callback 1 (.sent true) .success]) = some sv ∧
      (sv.slot 1).handle = .opened ∧ (sv.slot 1).wbSize = 1 ∧
      bytes (sv.slot 1).high + bytes (sv.slot 1).low = 0 :=
  ⟨_, rfl, rfl, rfl, rfl⟩

inductive Traffic where
  | send (priority : Priority) (data : List UInt8) (u : Results)
  | sendUdp (address data : List UInt8) (u : Results)
  | completed (u : Results)

namespace SnSocket

def traffic (s : SnSocket) : Traffic → Option SnSocket
  | .send priority data u => (s.ctrlCmd (.send s.id priority data) u).map Prod.fst
  | .sendUdp address data u => (s.ctrlCmd (.sendUdp s.id address data) u).map Prod.fst
  | .completed u => (s.callback (.sent true) u).map Prod.fst

structure Fresh (s : SnSocket) : Prop where
  type : s.type = .connected
  handle : s.handle = .opened
  high : s.high = []
  low : s.low = []
  write : s.write = false
  requests : s.requests = []
  submitted : s.submitted = []
  handed : s.handed = []

-- Only TCP sockets are sent to, with low priority only while nothing waits, and libuv takes what it
-- is given.
def Steady (s : SnSocket) : Traffic → Prop
  | .send priority _ u =>
      s.protocol = .tcp ∧ (priority = .low → s.sendBufferEmpty) ∧ (s.write ∨ u.writes)
  | .sendUdp _ _ u => s.protocol = .tcp ∧ (s.write ∨ u.writes)
  | .completed u => u.writes

def ofPriority (list : List WriteBuffer) (priority : Priority) : List WriteBuffer :=
  list.filter fun buffer => buffer.priority = priority

-- Nothing waits while no request is in flight, and libuv gets the data of each priority in the
-- order in which it was submitted, and in the end all of it.
structure Delivered (s : SnSocket) : Prop where
  drained : s.requests = [] → s.high = [] ∧ s.low = []
  order : s.protocol = .tcp → ∀ priority,
    ofPriority s.handed priority <+: ofPriority s.submitted priority
  all : s.protocol = .tcp → s.requests = [] → ∀ priority,
    ofPriority s.handed priority = ofPriority s.submitted priority

structure Idle (s : SnSocket) : Prop where
  type : s.type = .connected
  low : s.low = []
  high : s.high = []
  write : s.write = false
  requests : s.requests = []
  handed : s.handed = s.submitted

structure Busy (s : SnSocket) (buffer : WriteBuffer) (rest : List WriteBuffer) : Prop where
  type : s.type = .connected
  protocol : s.protocol = .tcp
  low : s.low = []
  high : s.high = buffer :: rest
  write : s.write = true
  requests : s.requests = [{ udp := false, list := .high }]
  handed : s.handed ++ rest = s.submitted

variable {s t : SnSocket}

def Flowing (s : SnSocket) : Prop := s.Idle ∨ ∃ buffer rest, s.Busy buffer rest

theorem Idle.sendSocket (idle : Idle s) (tcp : s.protocol = .tcp) (priority : Priority)
    (address : Option (List UInt8)) (data : List UInt8) (u : Results) (writes : u.writes = true)
    (events : List Event)
    (done : s.sendSocket s.id priority address data u = some (t, events)) : Flowing t := by
  have here : s.missing s.id = false := by simp [missing, idle.type]
  have empty : s.sendBufferEmpty = true := (sendBufferEmpty_iff s).mpr ⟨idle.high, idle.low⟩
  simp [SnSocket.sendSocket, here, idle.type, empty, tcp, appendSendbuffer, sendBuffer, sendList,
    sendListTcp, SnSocket.append, setList, list, idle.high, idle.low, idle.write, uvWrite, uvCall,
    writes] at done
  obtain ⟨rfl, _⟩ := done
  refine .inr ⟨{ priority := priority, data := data, udpAddress := [] }, [], ?_⟩
  exact ⟨rfl, rfl, rfl, rfl, rfl, by simp [idle.requests], by simp [idle.handed]⟩

theorem Busy.sendSocket {buffer : WriteBuffer} {rest : List WriteBuffer} (busy : Busy s buffer rest)
    (priority : Priority) (high : priority = .high) (address : Option (List UInt8))
    (data : List UInt8) (u : Results) (events : List Event)
    (done : s.sendSocket s.id priority address data u = some (t, events)) : Flowing t := by
  have here : s.missing s.id = false := by simp [missing, busy.type]
  have left : s.sendBufferEmpty = false := by simp [sendBufferEmpty, busy.high]
  simp [SnSocket.sendSocket, here, busy.type, left, busy.protocol, high, appendSendbuffer,
    SnSocket.append, setList, list, busy.high, busy.write] at done
  obtain ⟨rfl, _⟩ := done
  refine .inr
    ⟨buffer, rest ++ [{ priority := .high, data := data, udpAddress := [] }], ?_⟩
  refine ⟨rfl, rfl, busy.low, rfl, rfl, busy.requests, ?_⟩
  simp only [← busy.handed, List.append_assoc]

theorem Busy.completed {buffer : WriteBuffer} {rest : List WriteBuffer} (busy : Busy s buffer rest)
    (u : Results) (writes : u.writes = true) (events : List Event)
    (done : s.sent true u = some (t, events)) : Flowing t := by
  cases rest with
  | nil =>
    simp [SnSocket.sent, busy.requests, written, list, busy.high, setList, sendListTcp] at done
    obtain ⟨rfl, _⟩ := done
    exact .inl ⟨busy.type, busy.low, rfl, rfl, rfl, by simpa using busy.handed⟩
  | cons second rest =>
    simp [SnSocket.sent, busy.requests, written, list, busy.high, setList, sendListTcp, writes,
      uvWrite, uvCall] at done
    obtain ⟨rfl, _⟩ := done
    refine .inr ⟨second, rest, ?_⟩
    exact ⟨busy.type, busy.protocol, busy.low, rfl, rfl, rfl, by simpa using busy.handed⟩

theorem Flowing.traffic (flowing : Flowing s) (a : Traffic) (steady : Steady s a)
    (taken : s.traffic a = some t) : Flowing t := by
  cases a with
  | send priority data u =>
    obtain ⟨tcp, low, writes⟩ := steady
    simp only [SnSocket.traffic, ctrlCmd, Option.map_eq_some_iff, Prod.exists, exists_and_right,
      exists_eq_right] at taken
    obtain ⟨events, done⟩ := taken
    rcases flowing with idle | ⟨buffer, rest, busy⟩
    · exact idle.sendSocket tcp priority none data u (by simpa [idle.write] using writes) events done
    · have high : priority = .high := by
        cases priority with
        | high => rfl
        | low => simp [sendBufferEmpty, busy.high] at low
      exact busy.sendSocket priority high none data u events done
  | sendUdp address data u =>
    obtain ⟨tcp, writes⟩ := steady
    simp only [SnSocket.traffic, ctrlCmd, Option.map_eq_some_iff, Prod.exists, exists_and_right,
      exists_eq_right] at taken
    obtain ⟨events, done⟩ := taken
    rcases flowing with idle | ⟨buffer, rest, busy⟩
    · exact idle.sendSocket tcp .high (some address) data u (by simpa [idle.write] using writes)
        events done
    · exact busy.sendSocket .high rfl (some address) data u events done
  | completed u =>
    simp only [SnSocket.traffic, callback, Option.map_eq_some_iff, Prod.exists, exists_and_right,
      exists_eq_right] at taken
    obtain ⟨events, done⟩ := taken
    rcases flowing with idle | ⟨buffer, rest, busy⟩
    · simp [sent, idle.requests] at done
    · exact busy.completed u steady events done

theorem Flowing.delivered (flowing : Flowing s) : Delivered s := by
  rcases flowing with idle | ⟨buffer, rest, busy⟩
  · refine ⟨fun _ => ⟨idle.high, idle.low⟩, fun _ priority => ?_, fun _ _ priority => ?_⟩
    · rw [idle.handed]
    · rw [idle.handed]
  · refine ⟨fun none_ => ?_, fun _ priority => ?_, fun _ none_ => ?_⟩
    · rw [busy.requests] at none_
      contradiction
    · rw [← busy.handed, ofPriority, ofPriority, List.filter_append]
      exact List.prefix_append _ _
    · rw [busy.requests] at none_
      contradiction

end SnSocket

theorem submitted_data_delivered (start s : SnSocket) (fresh : start.Fresh)
    (path : Path SnSocket.traffic SnSocket.Steady start s) : s.Delivered := by
  have flowing : s.Flowing := by
    refine path.invariant SnSocket.Flowing ?_ ?_
    · intro s a t flowing steady taken
      exact flowing.traffic a steady taken
    · exact .inl ⟨fresh.type, fresh.low, fresh.high, fresh.write, fresh.requests,
        by rw [fresh.handed, fresh.submitted]⟩
  exact flowing.delivered

def SnSocket.connectedTo (protocol : Protocol) : SnSocket :=
  { SnSocket.blank with type := .connected, handle := .opened, protocol := protocol }

theorem connectedTo_fresh (protocol : Protocol) : (SnSocket.connectedTo protocol).Fresh :=
  ⟨rfl, rfl, rfl, rfl, rfl, rfl, rfl, rfl⟩

def twoSends (second : Priority) : List Traffic :=
  [.send .low [1] .success, .send second [2] .success, .completed .success]

theorem two_sends_delivered :
    ∃ s, run SnSocket.traffic (SnSocket.connectedTo .tcp) (twoSends .high) = some s ∧
      s.Delivered := by
  have along : Along SnSocket.traffic SnSocket.Steady (SnSocket.connectedTo .tcp)
      (twoSends .high) :=
    ⟨⟨rfl, fun _ => rfl, .inr rfl⟩, ⟨rfl, by simp, .inl rfl⟩, rfl, trivial⟩
  exact ⟨_, rfl, submitted_data_delivered _ _ (connectedTo_fresh .tcp)
    (Path.of_run (twoSends .high) (.refl _) along rfl)⟩

theorem data_left_behind :
    (∃ s, run SnSocket.traffic (SnSocket.connectedTo .tcp) (twoSends .low) = some s ∧
        s.requests = [] ∧ s.low.length = 1 ∧ ¬s.Delivered) ∧
      ∃ s, run SnSocket.traffic (SnSocket.connectedTo .udp) [.send .high [1] .success] = some s ∧
        s.requests = [] ∧ s.high.length = 1 ∧ ¬s.Delivered := by
  have stranded : ∀ s : SnSocket, s.requests = [] → s.high.length + s.low.length = 1 →
      ¬s.Delivered := by
    intro s idle left delivered
    obtain ⟨high, low⟩ := delivered.drained idle
    rw [high, low] at left
    contradiction
  exact ⟨⟨_, rfl, rfl, rfl, stranded _ rfl rfl⟩, _, rfl, rfl, rfl, stranded _ rfl rfl⟩

end Pskynet.Socket
