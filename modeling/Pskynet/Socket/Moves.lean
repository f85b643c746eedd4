import Mathlib.Tactic
import Pskynet.Socket.Slot

set_option autoImplicit false

namespace Pskynet.Socket.SnSocket

def Wrote (s t : SnSocket) : Prop :=
  ∃ requests handed write misused,
    t = { s with requests := requests, handed := handed, write := write, misused := misused } ∧
      (s.handle ≠ .closing → misused = s.misused)

theorem Wrote.refl (s : SnSocket) : s.Wrote s := ⟨_, _, _, _, rfl, fun _ => rfl⟩

theorem Wrote.trans {s t v : SnSocket} (first : s.Wrote t) (second : t.Wrote v) : s.Wrote v := by
  obtain ⟨_, _, _, _, rfl, before⟩ := first
  obtain ⟨requests, handed, write, misused, rfl, after⟩ := second
  refine ⟨requests, handed, write, misused, rfl, ?_⟩
  intro open_
  exact (after open_).trans (before open_)

theorem sendListTcp_wrote (s : SnSocket) (which : Priority) (writes : Bool) :
    s.Wrote (s.sendListTcp which writes).1 := by
  simp only [sendListTcp]
  split
  · exact .refl s
  · split
    · exact .refl s
    · refine ⟨_, _, _, _, rfl, ?_⟩
      intro open_
      simp [uvWrite, uvCall, open_]

theorem sendListUdp_wrote (s : SnSocket) (which : Priority) (writes : Bool) :
    s.Wrote (s.sendListUdp which writes).1 := by
  simp only [sendListUdp]
  split
  · exact .refl s
  · refine ⟨_, _, s.write, _, rfl, ?_⟩
    intro open_
    simp [uvCall, open_]

theorem sendList_wrote (s : SnSocket) (which : Priority) (writes : Bool) :
    s.Wrote (s.sendList which writes).1 := by
  simp only [sendList]
  split
  · exact sendListTcp_wrote s which writes
  · exact sendListUdp_wrote s which writes

theorem sendBuffer_wrote (s : SnSocket) (writes : Bool) : s.Wrote (s.sendBuffer writes).1 := by
  have first := sendList_wrote s .high writes
  simp only [sendBuffer]
  split
  · rename_i t sent
    rwa [sent] at first
  · rename_i t sent
    rw [sent] at first
    split
    · exact first.trans (sendList_wrote t .low writes)
    · exact first

@[simp] theorem reportRefusal_fst (sent : SnSocket × Bool) : (reportRefusal sent).1 = sent.1 := by
  obtain ⟨_, _ | _⟩ := sent <;> rfl

@[simp] theorem reportRefusal_snd (sent : SnSocket × Bool) :
    (reportRefusal sent).2 = if sent.2 then [{ code := .close, result := none }] else [] := by
  obtain ⟨_, _ | _⟩ := sent <;> rfl

theorem appendSendbuffer_wrote (s : SnSocket) (priority : Priority) (data : List UInt8)
    (writes : Bool) :
    (s.append .high { priority := priority, data := data, udpAddress := [] }).Wrote
      (s.appendSendbuffer priority data writes).1 := by
  have sent := sendBuffer_wrote
    (s.append .high { priority := priority, data := data, udpAddress := [] }) writes
  simp only [appendSendbuffer]
  split
  · exact .refl _
  · rwa [reportRefusal_fst]

theorem sendSocket_cases (s t : SnSocket) (id : Int32) (priority : Priority)
    (address : Option (List UInt8)) (data : List UInt8) (u : Results) (events : List Event)
    (done : s.sendSocket id priority address data u = some (t, events)) :
    ((s.missing id ∨ s.type = .halfclose) ∧ t = s) ∨
      (¬s.missing id ∧ s.type ≠ .halfclose ∧ s.type ≠ .plisten ∧ s.type ≠ .listen ∧
        ∃ which buffer, (s.append which buffer).Wrote t) := by
  simp only [sendSocket] at done
  split at done
  · rename_i dropped
    simp only [Option.some.injEq, Prod.mk.injEq] at done
    exact .inl ⟨dropped, done.1.symm⟩
  · rename_i kept
    push Not at kept
    split at done
    · contradiction
    · rename_i stream
      push Not at stream
      refine .inr ⟨by simpa using kept.1, kept.2, stream.1, stream.2, ?_⟩
      have high := appendSendbuffer_wrote s priority data u.writes
      split_ifs at done <;> simp only [Option.some.injEq, Prod.mk.injEq] at done
      · rw [done] at high
        exact ⟨_, _, high⟩
      · obtain ⟨rfl, _⟩ := done
        exact ⟨priority, _, Wrote.refl (s.append priority _)⟩
      · obtain ⟨rfl, _⟩ := done
        exact ⟨.low, _, Wrote.refl (s.append .low _)⟩
      · rw [done] at high
        exact ⟨_, _, high⟩
      · obtain ⟨rfl, _⟩ := done
        exact ⟨priority, _, Wrote.refl (s.append priority _)⟩

theorem sendBufferEmpty_iff (s : SnSocket) : s.sendBufferEmpty = true ↔ s.high = [] ∧ s.low = [] := by
  simp [sendBufferEmpty]

-- The slot after a `new_fd` that returns it, and after one that returns `NULL`.
def initialised (s : SnSocket) (id : Int32) (protocol : Protocol) (opaqueValue : Nat)
    (reading : Bool) : SnSocket :=
  { s with
    id := id
    handle := .opened
    reading := reading
    listening := false
    closeCalled := false
    protocol := protocol
    write := false
    opaqueValue := opaqueValue
    wbSize := 0
    submitted := []
    handed := []
    completed := 0 }

def abandoned (s : SnSocket) (id : Int32) : SnSocket :=
  { s with id := id, handle := .closing, reading := false, listening := false, closeCalled := true }

theorem newFd_cases (s t : SnSocket) (id : Int32) (protocol : Protocol) (opaqueValue : Nat)
    (add opens reads made : Bool)
    (done : s.newFd id protocol opaqueValue add opens reads = some (t, made)) :
    s.type = .reserve ∧
      ((made = true ∧ s.high = [] ∧ s.low = [] ∧
          ∃ reading, (reading = true → add = true) ∧
            t = s.initialised id protocol opaqueValue reading) ∨
        (made = false ∧ t = s.abandoned id ∧ ¬(opens = true ∧ add = false))) := by
  simp only [newFd] at done
  split at done
  · contradiction
  · rename_i reserved
    refine ⟨by simpa using reserved, ?_⟩
    split at done
    · rename_i closed
      simp only [Option.some.injEq, Prod.mk.injEq] at done
      refine .inr ⟨done.2.symm, ?_, by simp [closed.2]⟩
      rw [← done.1]
      simp [uvClose, abandoned]
    · by_cases starts : protocol = .tcp ∧ add = true
      · simp only [starts, true_and, and_self, if_true] at done
        split_ifs at done with read empty
        · simp only [Option.some.injEq, Prod.mk.injEq] at done
          have lists := (sendBufferEmpty_iff _).mp (empty)
          refine .inl ⟨done.2.symm, lists.1, lists.2, reads, fun _ => starts.2, ?_⟩
          rw [← done.1, starts.1]
          simp [uvReadStart, uvCall, initialised]
        · simp only [Option.some.injEq, Prod.mk.injEq] at done
          refine .inr ⟨done.2.symm, ?_, by simp [starts.2]⟩
          rw [← done.1]
          simp [uvClose, uvReadStart, uvCall, abandoned]
      · have skipped : ¬(protocol = .tcp ∧ add = true ∧ ¬reads = true) :=
          fun all => starts ⟨all.1, all.2.1⟩
        simp only [starts, skipped, if_false] at done
        split_ifs at done with empty
        simp only [Option.some.injEq, Prod.mk.injEq] at done
        have lists := (sendBufferEmpty_iff _).mp empty
        refine .inl ⟨done.2.symm, lists.1, lists.2, false, by simp, ?_⟩
        rw [← done.1]
        rfl

theorem newFd_unread {s t : SnSocket} {id : Int32} {protocol : Protocol} {opaqueValue : Nat}
    {reads made : Bool} (done : s.newFd id protocol opaqueValue false true reads = some (t, made)) :
    made = true ∧ s.type = .reserve ∧ s.high = [] ∧ s.low = [] ∧
      t = s.initialised id protocol opaqueValue false := by
  obtain ⟨reserved, ⟨made, high, low, reading, only, same⟩ | ⟨_, _, never⟩⟩ :=
    newFd_cases _ _ _ _ _ _ _ _ _ done
  · have idle : reading = false := by simpa using only
    exact ⟨made, reserved, high, low, idle ▸ same⟩
  · exact absurd ⟨rfl, rfl⟩ never

-- What `L`, `B` and `U`, the accepting of a connection and an `O` without failures can leave.
inductive Made (s : SnSocket) (id : Int32) : SnSocket → Prop where
  | refused (reserved : s.type = .reserve) : Made s id (s.abandoned id)
  | unbound (protocol : Protocol) (opaqueValue : Nat) (reserved : s.type = .reserve)
      (high : s.high = []) (low : s.low = []) :
      Made s id (s.initialised id protocol opaqueValue false).uvClose
  | connects (opaqueValue : Nat) (reserved : s.type = .reserve) (high : s.high = [])
      (low : s.low = []) :
      Made s id
        { s.initialised id .tcp opaqueValue false with type := .connecting, connecting := true }
  | opened (protocol : Protocol) (opaqueValue : Nat) (reading : Bool) (type : SocketType)
      (udpAddress : List UInt8) (reserved : s.type = .reserve) (high : s.high = [])
      (low : s.low = [])
      (made : type = .plisten ∨ type = .bind ∨ type = .connected ∨ type = .paccept) :
      Made s id
        { s.initialised id protocol opaqueValue reading with
          type := type, udpAddress := udpAddress }

theorem openSocket_cases (s t : SnSocket) (id : Int32) (opaqueValue : Nat) (u : Results)
    (events : List Event) (done : s.openSocket id opaqueValue u = some (t, events)) :
    (u.address = false ∧ t = { s with type := .invalid }) ∨
      (u.connects = false ∧ s.type = .reserve ∧ s.high = [] ∧ s.low = [] ∧
        t = { s.initialised id .tcp opaqueValue false with type := .invalid }) ∨
      s.Made id t := by
  simp only [openSocket] at done
  split at done
  · rename_i failed
    simp only [Option.some.injEq, Prod.mk.injEq] at done
    exact .inl ⟨by simpa using failed, done.1.symm⟩
  · split at done
    · contradiction
    · rename_i fd
      exact absurd (newFd_unread fd).1 Bool.false_ne_true
    · rename_i fd
      obtain ⟨-, reserved, high, low, rfl⟩ := newFd_unread fd
      split_ifs at done with connects <;> simp only [Option.some.injEq, Prod.mk.injEq] at done
      · exact .inr (.inr (done.1 ▸ .connects opaqueValue reserved high low))
      · exact .inr (.inl ⟨by simpa using connects, reserved, high, low, done.1.symm⟩)

theorem listenSocket_made (s t : SnSocket) (id : Int32) (opaqueValue : Nat) (u : Results)
    (events : List Event) (done : s.listenSocket id opaqueValue u = some (t, events)) :
    s.Made id t := by
  simp only [listenSocket] at done
  split at done
  · contradiction
  · rename_i fd
    exact absurd (newFd_unread fd).1 Bool.false_ne_true
  · rename_i fd
    obtain ⟨-, reserved, high, low, rfl⟩ := newFd_unread fd
    split_ifs at done <;> simp only [Option.some.injEq, Prod.mk.injEq] at done
    · exact done.1 ▸ .opened .tcp opaqueValue false .plisten s.udpAddress reserved high low (.inl rfl)
    · exact done.1 ▸ .unbound .tcp opaqueValue reserved high low

theorem bindSocket_made (s t : SnSocket) (id : Int32) (opaqueValue : Nat) (u : Results)
    (events : List Event) (done : s.bindSocket id opaqueValue u = some (t, events)) :
    s.Made id t := by
  simp only [bindSocket] at done
  split at done
  · contradiction
  · rename_i fd
    simp only [Option.some.injEq, Prod.mk.injEq] at done
    obtain ⟨reserved, ⟨made, _⟩ | ⟨_, rfl, _⟩⟩ := newFd_cases _ _ _ _ _ _ _ _ _ fd
    · contradiction
    · exact done.1 ▸ .refused reserved
  · rename_i fd
    simp only [Option.some.injEq, Prod.mk.injEq] at done
    obtain ⟨reserved, ⟨_, high, low, reading, _, rfl⟩ | ⟨made, _⟩⟩ :=
      newFd_cases _ _ _ _ _ _ _ _ _ fd
    · exact done.1 ▸
        .opened .tcp opaqueValue reading .bind s.udpAddress reserved high low (.inr (.inl rfl))
    · contradiction

theorem addUdpSocket_made (s t : SnSocket) (id : Int32) (v6 : Bool) (opaqueValue : Nat)
    (u : Results) (events : List Event)
    (done : s.addUdpSocket id v6 opaqueValue u = some (t, events)) : s.Made id t := by
  simp only [addUdpSocket] at done
  split at done
  · rename_i fd
    simp only [Option.some.injEq, Prod.mk.injEq] at done
    obtain ⟨reserved, ⟨_, high, low, reading, _, rfl⟩ | ⟨made, _⟩⟩ :=
      newFd_cases _ _ _ _ _ _ _ _ _ fd
    · exact done.1 ▸ .opened _ opaqueValue reading .connected (List.replicate 19 0) reserved high low
        (.inr (.inr (.inl rfl)))
    · contradiction
  · contradiction

theorem accepted_made (s t : SnSocket) (id : Int32) (opaqueValue : Nat) (u : Results)
    (made : Bool) (done : s.accepted id opaqueValue u = some (t, made)) : s.Made id t := by
  simp only [accepted] at done
  split at done
  · contradiction
  · rename_i fd
    exact absurd (newFd_unread fd).1 Bool.false_ne_true
  · rename_i fd
    obtain ⟨-, reserved, high, low, rfl⟩ := newFd_unread fd
    split_ifs at done <;> simp only [Option.some.injEq, Prod.mk.injEq] at done
    · exact done.1 ▸ .opened .tcp opaqueValue false .paccept s.udpAddress reserved high low
        (.inr (.inr (.inr rfl)))
    · exact done.1 ▸ .unbound .tcp opaqueValue reserved high low

theorem opening_cases (s t : SnSocket) (id : Int32) (events : List Event)
    (go : SnSocket → Option (SnSocket × List Event)) (done : s.opening id go = some (t, events)) :
    s.promised = true ∧ s.id = id ∧ go { s with promised := false } = some (t, events) := by
  simp only [opening] at done
  split_ifs at done with allowed
  exact ⟨allowed.1, allowed.2, done⟩

theorem forceClose_cases (s : SnSocket) :
    (s.type = .invalid ∧ s.forceClose.1 = s) ∨
      (s.type = .reserve ∧ s.forceClose.1 = { s with asserted := true }) ∨
      (s.type ≠ .invalid ∧ s.type ≠ .reserve ∧
        s.forceClose.1 = uvClose { s with high := [], low := [] }) := by
  simp only [forceClose]
  split_ifs with free reserved
  · exact .inl ⟨free, rfl⟩
  · exact .inr (.inl ⟨reserved, rfl⟩)
  · exact .inr (.inr ⟨free, reserved, rfl⟩)

theorem closeAndReport_fst (s : SnSocket) (code : Code) :
    (s.closeAndReport code).1 = s.forceClose.1 := by
  simp only [closeAndReport]
  split
  · rename_i closed
    rw [closed]
  · rename_i closed
    rw [closed]

theorem closeAndReport_eq {s t : SnSocket} {code : Code} {events : List Event}
    (done : s.closeAndReport code = (t, events)) : t = s.forceClose.1 := by
  rw [← closeAndReport_fst s code, done]

theorem closeSocket_cases (s : SnSocket) (id : Int32) (opaqueValue : Nat) (u : Results) :
    (s.missing id = true ∧ (s.closeSocket id opaqueValue u).1 = s) ∨
      (s.missing id = false ∧ s.sendBufferEmpty = true ∧
        (s.closeSocket id opaqueValue u).1 = s.forceClose.1) ∨
      (s.missing id = false ∧ s.sendBufferEmpty = false ∧
        ∃ v, s.Wrote v ∧ ((s.closeSocket id opaqueValue u).1 = v ∨
          (s.closeSocket id opaqueValue u).1 = { v with type := .halfclose })) := by
  cases missing : s.missing id with
  | true => exact .inl ⟨rfl, by simp [closeSocket, missing]⟩
  | false =>
    cases empty : s.sendBufferEmpty with
    | true =>
      refine .inr (.inl ⟨rfl, rfl, ?_⟩)
      simp only [closeSocket, missing, empty, if_true, Bool.false_eq_true, if_false]
      split
      · rename_i closed
        rw [closed]
      · rename_i closed
        rw [closed]
    | false =>
      refine .inr (.inr ⟨rfl, rfl, (s.sendBuffer u.writes).1, sendBuffer_wrote s u.writes, ?_⟩)
      have wrote := sendBuffer_wrote s u.writes
      simp only [closeSocket, missing, empty, Bool.false_eq_true, if_false]
      rcases sent : s.sendBuffer u.writes with ⟨v, _ | _⟩ <;> rw [sent] at wrote
      · -- A write does not change the lists.
        have same : v.sendBufferEmpty = false := by
          obtain ⟨_, _, _, _, rfl, _⟩ := wrote
          exact empty
        simp only [same, Bool.false_eq_true, if_false]
        exact .inr trivial
      · exact .inl rfl

-- All that `S` can leave.
inductive Starting (s : SnSocket) (id : Int32) : SnSocket → Prop where
  | same : Starting s id s
  | transfer (opaqueValue : Nat) (type : s.type = .connected) :
      Starting s id { s with opaqueValue := opaqueValue }
  | reads (opaqueValue : Nat) (here : s.missing id = false) (type : s.type = .paccept) :
      Starting s id { s.uvReadStart true with type := .connected, opaqueValue := opaqueValue }
  | readFails (here : s.missing id = false) (type : s.type = .paccept) :
      Starting s id (s.uvReadStart false).forceClose.1
  | listens (opaqueValue : Nat) (here : s.missing id = false) (type : s.type = .plisten) :
      Starting s id { s.uvListen true with type := .listen, opaqueValue := opaqueValue }
  | listenFails (here : s.missing id = false) (type : s.type = .plisten) :
      Starting s id (s.uvListen false).forceClose.1

theorem startSocket_starting (s : SnSocket) (id : Int32) (opaqueValue : Nat) (u : Results) :
    Starting s id (s.startSocket id opaqueValue u).1 := by
  cases here : s.missing id with
  | true => simp only [startSocket, here, if_true]; exact .same
  | false =>
    simp only [startSocket, here, Bool.false_eq_true, if_false]
    split
    · rename_i type
      split
      · exact .reads opaqueValue here type
      · rw [closeAndReport_fst]
        exact .readFails here type
    · rename_i type
      exact .transfer opaqueValue type
    · rename_i type
      split
      · exact .listens opaqueValue here type
      · rw [closeAndReport_fst]
        exact .listenFails here type
    · exact .same

theorem sent_cases (s t : SnSocket) (success : Bool) (u : Results) (events : List Event)
    (done : s.sent success u = some (t, events)) :
    ∃ request rest write, s.requests = request :: rest ∧
      ((success = false ∧ t = { s with requests := rest, write := write }) ∨
        ∃ buffer tail, success = true ∧ s.list request.list = buffer :: tail ∧
          { s.setList request.list tail with
            requests := rest
            write := write
            completed := s.completed + buffer.data.length }.Wrote t) := by
  simp only [sent] at done
  split at done
  · contradiction
  · rename_i request rest queue
    split at done
    · refine ⟨request, rest, s.write, queue, ?_⟩
      simp only [udpSent] at done
      split at done
      · rename_i failed
        simp only [Option.some.injEq, Prod.mk.injEq] at done
        exact .inl ⟨by simpa using failed, done.1.symm⟩
      · rename_i ok
        split at done
        · contradiction
        · rename_i buffer tail here
          simp only [Option.some.injEq, Prod.mk.injEq] at done
          refine .inr ⟨buffer, tail, by simpa using ok, here, ?_⟩
          rw [← done.1]
          exact sendListUdp_wrote _ _ _
    · refine ⟨request, rest, false, queue, ?_⟩
      simp only [written] at done
      split at done
      · rename_i failed
        simp only [Option.some.injEq, Prod.mk.injEq] at done
        exact .inl ⟨by simpa using failed, done.1.symm⟩
      · rename_i ok
        split at done
        · contradiction
        · rename_i buffer tail here
          refine .inr ⟨buffer, tail, by simpa using ok, here, ?_⟩
          have left := congrArg Prod.fst (Option.some.inj done)
          rw [reportRefusal_fst] at left
          obtain rfl : _ = t := left
          exact sendListTcp_wrote _ _ _

inductive Commanded (s : SnSocket) (c : Command) (u : Results) : SnSocket → Prop where
  | same : Commanded s c u s
  | addressed (udpAddress : List UInt8) : Commanded s c u { s with udpAddress := udpAddress }
  | started (id : Int32) (opaqueValue : Nat) (t : SnSocket) (is : c = .start id opaqueValue)
      (starting : s.Starting id t) : Commanded s c u t
  | closed (id : Int32) (opaqueValue : Nat) (is : c = .close id opaqueValue)
      (here : s.missing id = false) (empty : s.sendBufferEmpty = true) :
      Commanded s c u s.forceClose.1
  | halfClosed (id : Int32) (opaqueValue : Nat) (v : SnSocket) (type : SocketType)
      (is : c = .close id opaqueValue) (here : s.missing id = false)
      (left : s.sendBufferEmpty = false) (wrote : s.Wrote v)
      (marked : type = s.type ∨ type = .halfclose) : Commanded s c u { v with type := type }
  | appended (which : Priority) (buffer : WriteBuffer) (t : SnSocket)
      (is : c.sends = true)
      (here : s.missing c.id = false) (half : s.type ≠ .halfclose) (plisten : s.type ≠ .plisten)
      (listen : s.type ≠ .listen) (wrote : (s.append which buffer).Wrote t) : Commanded s c u t
  | unresolved (promised : s.promised = true) :
      Commanded s c u { s with promised := false, type := .invalid }
  | unconnected (id : Int32) (opaqueValue : Nat) (is : c = .connect id opaqueValue)
      (failed : u.connects = false) (promised : s.promised = true) (same : s.id = c.id)
      (high : s.high = []) (low : s.low = []) :
      Commanded s c u
        { { s with promised := false }.initialised id .tcp opaqueValue false with type := .invalid }
  | made (t : SnSocket) (promised : s.promised = true) (same : s.id = c.id)
      (made : { s with promised := false }.Made c.id t) : Commanded s c u t

theorem ctrlCmd_commanded (s t : SnSocket) (c : Command) (u : Results) (events : List Event)
    (done : s.ctrlCmd c u = some (t, events)) : s.Commanded c u t := by
  cases c with
  | start id opaqueValue =>
    simp only [ctrlCmd, Option.some.injEq] at done
    have starting := startSocket_starting s id opaqueValue u
    rw [done] at starting
    exact .started id opaqueValue t rfl starting
  | bind id opaqueValue =>
    rw [ctrlCmd] at done
    obtain ⟨promised, same, made⟩ := opening_cases s t id events _ done
    exact .made t promised same (bindSocket_made _ t id opaqueValue u events made)
  | listen id opaqueValue =>
    rw [ctrlCmd] at done
    obtain ⟨promised, same, made⟩ := opening_cases s t id events _ done
    exact .made t promised same (listenSocket_made _ t id opaqueValue u events made)
  | close id opaqueValue =>
    simp only [ctrlCmd, Option.some.injEq] at done
    have cases_ := closeSocket_cases s id opaqueValue u
    rw [done] at cases_
    obtain ⟨_, rfl⟩ | ⟨here, empty, rfl⟩ | ⟨here, left, v, wrote, rfl | rfl⟩ := cases_
    · exact .same
    · exact .closed id opaqueValue rfl here empty
    · have type : t.type = s.type := by
        obtain ⟨_, _, _, _, rfl, _⟩ := wrote
        rfl
      have whole := Commanded.halfClosed (u := u) id opaqueValue t t.type rfl here left wrote (.inl type)
      exact whole
    · exact .halfClosed id opaqueValue v .halfclose rfl here left wrote (.inr rfl)
  | connect id opaqueValue =>
    rw [ctrlCmd] at done
    obtain ⟨promised, same, opened⟩ := opening_cases s t id events _ done
    obtain ⟨_, rfl⟩ | ⟨failed, _, high, low, rfl⟩ | made :=
      openSocket_cases _ t id opaqueValue u events opened
    · exact .unresolved promised
    · exact .unconnected id opaqueValue rfl failed promised same high low
    · exact .made t promised same made
  | exit =>
    simp only [ctrlCmd, Option.some.injEq, Prod.mk.injEq] at done
    exact done.1 ▸ .same
  | send id priority data =>
    obtain ⟨_, rfl⟩ | ⟨here, half, plisten, listen, which, buffer, wrote⟩ :=
      sendSocket_cases s t id priority none data u events done
    · exact .same
    · exact .appended which buffer t rfl (Bool.not_eq_true _ ▸ here) half plisten listen wrote
  | sendUdp id address data =>
    obtain ⟨_, rfl⟩ | ⟨here, half, plisten, listen, which, buffer, wrote⟩ :=
      sendSocket_cases s t id .high (some address) data u events done
    · exact .same
    · exact .appended which buffer t rfl (Bool.not_eq_true _ ▸ here) half plisten listen wrote
  | setUdp id address =>
    simp only [ctrlCmd, setUdpAddress, Option.some.injEq] at done
    split at done
    · exact (Prod.mk.inj done).1 ▸ .same
    · split at done
      · exact (Prod.mk.inj done).1 ▸ .same
      · exact (Prod.mk.inj done).1 ▸ .addressed _
  | setopt id =>
    simp only [ctrlCmd, Option.some.injEq, Prod.mk.injEq] at done
    exact done.1 ▸ .same
  | udp id v6 opaqueValue =>
    rw [ctrlCmd] at done
    obtain ⟨promised, same, made⟩ := opening_cases s t id events _ done
    exact .made t promised same (addUdpSocket_made _ t id v6 opaqueValue u events made)

inductive CalledBack (s : SnSocket) : SnSocket → Prop where
  | same : CalledBack s s
  | readError (opened : s.handle = .opened) (reading : s.reading = true) :
      CalledBack s { s with reading := false }.forceClose.1
  | connectError (connecting : s.connecting = true) :
      CalledBack s { s with connecting := false }.forceClose.1
  | readFails (connecting : s.connecting = true) (opened : s.handle = .opened) :
      CalledBack s ({ s with connecting := false }.uvReadStart false).forceClose.1
  | connected (connecting : s.connecting = true) (opened : s.handle = .opened) :
      CalledBack s { { s with connecting := false }.uvReadStart true with type := .connected }
  | sendError (request : WriteRequest) (rest : List WriteRequest) (write : Bool)
      (queue : s.requests = request :: rest) : CalledBack s { s with requests := rest, write := write }
  | sent (request : WriteRequest) (rest : List WriteRequest) (write : Bool) (buffer : WriteBuffer)
      (tail : List WriteBuffer) (t : SnSocket) (queue : s.requests = request :: rest)
      (list : s.list request.list = buffer :: tail)
      (wrote : { s.setList request.list tail with
        requests := rest
        write := write
        completed := s.completed + buffer.data.length }.Wrote t) : CalledBack s t
  | listenError (opened : s.handle = .opened) (listening : s.listening = true) :
      CalledBack s s.forceClose.1
  | closed (closing : s.handle = .closing) (requests : s.requests = [])
      (connecting : s.connecting = false) : CalledBack s { s with type := .invalid, handle := .absent }

theorem callback_calledBack (s t : SnSocket) (k : Callback) (u : Results) (events : List Event)
    (done : s.callback k u = some (t, events)) : s.CalledBack t := by
  cases k with
  | read received =>
    simp only [callback, read] at done
    split_ifs at done with ready
    split at done <;> simp only [Option.some.injEq] at done
    · obtain rfl := closeAndReport_eq done
      exact .readError ready.1 ready.2
    · simp only [Prod.mk.injEq] at done
      exact done.1 ▸ .same
    · simp only [Prod.mk.injEq] at done
      exact done.1 ▸ .same
  | connected success peer =>
    simp only [callback, SnSocket.connected] at done
    split_ifs at done with ready ok reads <;> simp only [Option.some.injEq] at done
    · simp only [Prod.mk.injEq] at done
      exact done.1 ▸ .connected ready.1 (ready.2 ok)
    · obtain rfl := closeAndReport_eq done
      exact .readFails ready.1 (ready.2 ok)
    · obtain rfl := closeAndReport_eq done
      exact .connectError ready.1
  | sent success =>
    obtain ⟨request, rest, write, queue, ⟨_, rfl⟩ | ⟨buffer, tail, _, list, wrote⟩⟩ :=
      sent_cases s t success u events done
    · exact .sendError request rest write queue
    · exact .sent request rest write buffer tail t queue list wrote
  | connection =>
    simp only [callback, connectionFailed] at done
    split_ifs at done with ready
    simp only [Option.some.injEq] at done
    obtain rfl := closeAndReport_eq done
    exact .listenError ready.1 ready.2
  | closed =>
    simp only [callback, SnSocket.closed] at done
    split_ifs at done with ready
    simp only [Option.some.injEq, Prod.mk.injEq] at done
    exact done.1 ▸ .closed ready.1 ready.2.1 (by simpa using ready.2.2)

end Pskynet.Socket.SnSocket
