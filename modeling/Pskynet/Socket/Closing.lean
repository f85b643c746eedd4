import Mathlib.Tactic
import Pskynet.Socket.Moves
import Pskynet.Socket.Server

set_option autoImplicit false

namespace Pskynet.Socket

open Transition

namespace SnSocket

-- A slot that `reserve_id` may give out, or that waits for the command that opens it, has no
-- handle.
structure Vacant (s : SnSocket) : Prop where
  invalid : s.type = .invalid → s.handle = .absent
  promised : s.promised = true → s.handle = .absent

theorem Vacant.forceClose {s : SnSocket} (vacant : Vacant s) : Vacant s.forceClose.1 := by
  obtain ⟨_, same⟩ | ⟨reserved, same⟩ | ⟨used, _, same⟩ := s.forceClose_cases <;> rw [same]
  · exact vacant
  · exact ⟨vacant.invalid, vacant.promised⟩
  · constructor
    · intro free
      exact absurd free used
    · intro promised
      simp [uvClose, vacant.promised promised]

theorem Vacant.wrote {s t : SnSocket} (vacant : Vacant s) (wrote : s.Wrote t) : Vacant t := by
  obtain ⟨_, _, _, _, rfl, _⟩ := wrote
  exact ⟨vacant.invalid, vacant.promised⟩

theorem Vacant.of_made {s t : SnSocket} {id : Int32} (made : s.Made id t)
    (unpromised : s.promised = false) : Vacant t := by
  cases made with
  | refused reserved => constructor <;> simp [abandoned, reserved, unpromised]
  | unbound _ _ reserved => constructor <;> simp [initialised, uvClose, reserved, unpromised]
  | connects => constructor <;> simp [initialised, unpromised]
  | opened _ _ _ _ _ _ _ _ made =>
    constructor
    · intro free
      rcases made with rfl | rfl | rfl | rfl <;> contradiction
    · simp [initialised, unpromised]

theorem Vacant.starting {s t : SnSocket} {id : Int32} (vacant : Vacant s)
    (starting : s.Starting id t) : Vacant t := by
  cases starting with
  | same => exact vacant
  | transfer => exact ⟨vacant.invalid, vacant.promised⟩
  | reads => exact ⟨by simp, vacant.promised⟩
  | readFails => exact Vacant.forceClose ⟨vacant.invalid, vacant.promised⟩
  | listens => exact ⟨by simp, vacant.promised⟩
  | listenFails => exact Vacant.forceClose ⟨vacant.invalid, vacant.promised⟩

theorem Vacant.commanded {s t : SnSocket} {c : Command} {u : Results} (vacant : Vacant s)
    (connects : ∀ id opaqueValue, c = .connect id opaqueValue → u.connects = true)
    (commanded : s.Commanded c u t) : Vacant t := by
  cases commanded with
  | same => exact vacant
  | addressed => exact ⟨vacant.invalid, vacant.promised⟩
  | started _ _ _ _ starting => exact vacant.starting starting
  | closed => exact vacant.forceClose
  | halfClosed _ _ v type _ here _ wrote marked =>
    have after := vacant.wrote wrote
    have kept : v.type = s.type := by
      obtain ⟨_, _, _, _, rfl, _⟩ := wrote
      rfl
    refine ⟨?_, after.promised⟩
    intro free
    change type = .invalid at free
    rcases marked with same | half
    · exact after.invalid (kept.trans (same.symm.trans free))
    · rw [half] at free
      contradiction
  | appended _ _ _ _ _ _ _ _ wrote =>
    refine Vacant.wrote ?_ wrote
    exact ⟨vacant.invalid, vacant.promised⟩
  | unresolved promised => exact ⟨fun _ => vacant.promised promised, by simp⟩
  | unconnected id opaqueValue is failed =>
    rw [connects id opaqueValue is] at failed
    contradiction
  | made _ _ _ made => exact .of_made made rfl

theorem Vacant.calledBack {s t : SnSocket} (vacant : Vacant s) (calledBack : s.CalledBack t) :
    Vacant t := by
  cases calledBack with
  | same => exact vacant
  | readError => exact Vacant.forceClose ⟨vacant.invalid, vacant.promised⟩
  | connectError => exact Vacant.forceClose ⟨vacant.invalid, vacant.promised⟩
  | readFails => exact Vacant.forceClose ⟨vacant.invalid, vacant.promised⟩
  | connected => exact ⟨by simp, vacant.promised⟩
  | sendError => exact ⟨vacant.invalid, vacant.promised⟩
  | sent _ _ _ _ _ _ _ _ wrote =>
    refine Vacant.wrote ?_ wrote
    exact ⟨vacant.invalid, vacant.promised⟩
  | listenError => exact vacant.forceClose
  | closed => exact ⟨fun _ => rfl, fun _ => rfl⟩

-- No call was made on a closing handle, and none is to come: a closing slot has no data left and no
-- callback but that of its requests, and a slot that is free or reserved has not even these.
structure Untouched (s : SnSocket) : Prop where
  calls : s.misused = false
  asserts : s.asserted = false
  closing : s.handle = .closing →
    s.high = [] ∧ s.low = [] ∧ s.reading = false ∧ s.listening = false ∧ s.connecting = false
  unused : s.type = .invalid ∨ s.type = .reserve →
    s.high = [] ∧ s.low = [] ∧ s.reading = false ∧ s.listening = false ∧ s.connecting = false
  request : s.connecting = true →
    (s.type = .connecting ∨ s.type = .halfclose) ∧ s.reading = false ∧ s.listening = false
  free : s.type = .invalid → s.handle ≠ .closing
  promised : s.promised = true → s.type = .reserve ∧ s.handle ≠ .closing

-- A command that calls libuv does not come to a closing handle, a close not to a reserved slot or
-- to one with nothing to send whose connect request is in flight, and a send not to a reserved
-- slot.
def Orderly (s : SnSocket) (c : Command) (_ : Results) : Prop :=
  match c with
  | .start id _ =>
      s.missing id ∨ s.handle ≠ .closing ∨ (s.type ≠ .paccept ∧ s.type ≠ .plisten)
  | .close id _ =>
      s.missing id ∨ (s.handle ≠ .closing ∧ s.type ≠ .reserve ∧
        ¬(s.connecting ∧ s.sendBufferEmpty))
  | .send id _ _ | .sendUdp id _ _ =>
      s.missing id ∨ s.type = .halfclose ∨ (s.handle ≠ .closing ∧ s.type ≠ .reserve)
  | _ => True

theorem Untouched.forceClose {s : SnSocket} (untouched : Untouched s)
    (open_ : s.handle ≠ .closing) (reserved : s.type ≠ .reserve) (settled : s.connecting = false) :
    Untouched s.forceClose.1 := by
  obtain ⟨_, same⟩ | ⟨is, _⟩ | ⟨used, _, same⟩ := s.forceClose_cases
  · rwa [same]
  · contradiction
  · rw [same]
    refine ⟨?_, untouched.asserts, fun _ => ⟨rfl, rfl, rfl, rfl, settled⟩, ?_, ?_, ?_, ?_⟩
    · simp [uvClose, untouched.calls, open_]
    · rintro (is | is) <;> contradiction
    · intro connecting
      rw [show (uvClose { s with high := [], low := [] }).connecting = s.connecting from rfl,
        settled] at connecting
      contradiction
    · intro is
      contradiction
    · intro promised
      exact absurd (untouched.promised promised).1 reserved

theorem Untouched.wrote {s t : SnSocket} (untouched : Untouched s) (open_ : s.handle ≠ .closing)
    (wrote : s.Wrote t) : Untouched t := by
  obtain ⟨_, _, _, misused, rfl, unchanged⟩ := wrote
  exact ⟨(unchanged open_).trans untouched.calls, untouched.asserts, untouched.closing,
    untouched.unused, untouched.request, untouched.free, untouched.promised⟩

theorem Untouched.made {s t : SnSocket} {id : Int32} (untouched : Untouched s)
    (made : s.Made id t) (unpromised : s.promised = false) : Untouched t := by
  cases made with
  | refused reserved =>
    obtain ⟨high, low, _, _, settled⟩ := untouched.unused (.inr reserved)
    refine ⟨untouched.calls, untouched.asserts, fun _ => ⟨high, low, rfl, rfl, settled⟩,
      fun _ => ⟨high, low, rfl, rfl, settled⟩, ?_, ?_, ?_⟩ <;>
      simp [abandoned, settled, reserved, unpromised]
  | unbound _ _ reserved high low =>
    have settled := (untouched.unused (.inr reserved)).2.2.2.2
    refine ⟨?_, untouched.asserts, fun _ => ⟨high, low, rfl, rfl, settled⟩,
      fun _ => ⟨high, low, rfl, rfl, settled⟩, ?_, ?_, ?_⟩ <;>
      simp [initialised, uvClose, settled, reserved, unpromised, untouched.calls]
  | connects _ reserved high low =>
    refine ⟨untouched.calls, untouched.asserts, ?_, ?_, fun _ => ⟨.inl rfl, rfl, rfl⟩, ?_, ?_⟩ <;>
      simp [initialised, unpromised]
  | opened _ _ _ type _ reserved high low made =>
    have settled := (untouched.unused (.inr reserved)).2.2.2.2
    refine ⟨untouched.calls, untouched.asserts, ?_, ?_, ?_, ?_, ?_⟩ <;>
      simp [initialised, unpromised, settled]
    rcases made with rfl | rfl | rfl | rfl <;> simp

theorem Untouched.starting {s t : SnSocket} {id : Int32} {opaqueValue : Nat} {u : Results}
    (untouched : Untouched s) (orderly : Orderly s (.start id opaqueValue) u)
    (starting : s.Starting id t) : Untouched t := by
  -- The handle is open whenever a call of libuv is made.
  have open_ : s.missing id = false → s.type = .paccept ∨ s.type = .plisten →
      s.handle ≠ .closing := by
    intro here waits
    rcases orderly with missing | open_ | other
    · rw [here] at missing
      contradiction
    · exact open_
    · rcases waits with is | is
      · exact absurd is other.1
      · exact absurd is other.2
  have settled : s.type = .paccept ∨ s.type = .plisten → s.connecting = false := by
    intro waits
    by_contra connecting
    have type := (untouched.request (by simpa using connecting)).1
    rcases waits with is | is <;> rw [is] at type <;> simp at type
  have unpromised : s.type = .paccept ∨ s.type = .plisten → s.promised = false := by
    intro waits
    by_contra promised
    have type := (untouched.promised (by simpa using promised)).1
    rcases waits with is | is <;> rw [is] at type <;> contradiction
  cases starting with
  | same => exact untouched
  | transfer =>
    exact ⟨untouched.calls, untouched.asserts, untouched.closing, untouched.unused,
      untouched.request, untouched.free, untouched.promised⟩
  | reads _ here type =>
    have handle := open_ here (.inl type)
    refine ⟨?_, untouched.asserts, fun closing => absurd closing handle, ?_, ?_, ?_, ?_⟩ <;>
      simp [uvReadStart, uvCall, untouched.calls, handle, settled (.inl type),
        unpromised (.inl type)]
  | readFails here type =>
    have handle := open_ here (.inl type)
    have called : Untouched (s.uvReadStart false) := by
      refine ⟨?_, untouched.asserts, fun closing => absurd closing handle, ?_, ?_, untouched.free,
        untouched.promised⟩ <;>
        simp [uvReadStart, uvCall, untouched.calls, handle, type, settled (.inl type)]
    refine called.forceClose handle ?_ (settled (.inl type))
    change s.type ≠ .reserve
    rw [type]
    decide
  | listens _ here type =>
    have handle := open_ here (.inr type)
    refine ⟨?_, untouched.asserts, fun closing => absurd closing handle, ?_, ?_, ?_, ?_⟩ <;>
      simp [uvListen, uvCall, untouched.calls, handle, settled (.inr type),
        unpromised (.inr type)]
  | listenFails here type =>
    have handle := open_ here (.inr type)
    have called : Untouched (s.uvListen false) := by
      refine ⟨?_, untouched.asserts, fun closing => absurd closing handle, ?_, ?_, untouched.free,
        untouched.promised⟩ <;>
        simp [uvListen, uvCall, untouched.calls, handle, type, settled (.inr type)]
    refine called.forceClose handle ?_ (settled (.inr type))
    change s.type ≠ .reserve
    rw [type]
    decide

theorem missing_false {s : SnSocket} {id : Int32} (here : s.missing id = false) :
    s.type ≠ .invalid := by
  intro free
  simp [missing, free] at here

theorem Untouched.closed {s : SnSocket} {id : Int32} {opaqueValue : Nat} {u : Results}
    (untouched : Untouched s) (orderly : Orderly s (.close id opaqueValue) u)
    (here : s.missing id = false) (empty : s.sendBufferEmpty = true) :
    Untouched s.forceClose.1 := by
  rcases orderly with missing | ⟨open_, reserved, settled⟩
  · rw [here] at missing
    contradiction
  · exact untouched.forceClose open_ reserved (by simpa [empty] using settled)

theorem Untouched.halfClosed {s v : SnSocket} {id : Int32} {opaqueValue : Nat} {u : Results}
    {type : SocketType} (untouched : Untouched s) (orderly : Orderly s (.close id opaqueValue) u)
    (here : s.missing id = false) (wrote : s.Wrote v)
    (marked : type = s.type ∨ type = .halfclose) : Untouched { v with type := type } := by
  rcases orderly with missing | ⟨open_, reserved, settled⟩
  · rw [here] at missing
    contradiction
  · obtain ⟨_, _, _, misused, rfl, unchanged⟩ := wrote
    have used : type ≠ .invalid ∧ type ≠ .reserve := by
      rcases marked with rfl | rfl
      · exact ⟨missing_false here, reserved⟩
      · decide
    refine ⟨(unchanged open_).trans untouched.calls, untouched.asserts, untouched.closing, ?_, ?_,
      ?_, ?_⟩
    · rintro (is | is)
      · exact absurd is used.1
      · exact absurd is used.2
    · intro connecting
      refine ⟨?_, (untouched.request connecting).2⟩
      rcases marked with rfl | rfl
      · exact (untouched.request connecting).1
      · exact .inr rfl
    · intro is
      exact absurd is used.1
    · intro promised
      exact absurd (untouched.promised promised).1 reserved

theorem Untouched.appended {s t : SnSocket} {c : Command} {u : Results} {which : Priority}
    {buffer : WriteBuffer} (untouched : Untouched s) (orderly : Orderly s c u)
    (is : c.sends = true) (here : s.missing c.id = false) (half : s.type ≠ .halfclose)
    (wrote : (s.append which buffer).Wrote t) : Untouched t := by
  have allowed : s.handle ≠ .closing ∧ s.type ≠ .reserve := by
    cases c with
    | send id | sendUdp id =>
      rcases orderly with missing | closes | allowed
      · rw [show s.missing id = false from here] at missing
        contradiction
      · exact absurd closes half
      · exact allowed
    | _ => contradiction
  refine Untouched.wrote (s := s.append which buffer) ?_ allowed.1 wrote
  refine ⟨untouched.calls, untouched.asserts, ?_, ?_, untouched.request, untouched.free,
    untouched.promised⟩
  · intro closing
    exact absurd closing allowed.1
  · rintro (is | is)
    · exact absurd is (missing_false here)
    · exact absurd is allowed.2

theorem Untouched.commanded {s t : SnSocket} {c : Command} {u : Results} (untouched : Untouched s)
    (orderly : Orderly s c u) (commanded : s.Commanded c u t) : Untouched t := by
  cases commanded with
  | same => exact untouched
  | addressed =>
    exact ⟨untouched.calls, untouched.asserts, untouched.closing, untouched.unused,
      untouched.request, untouched.free, untouched.promised⟩
  | started id opaqueValue _ is starting =>
    rw [is] at orderly
    exact untouched.starting orderly starting
  | closed id opaqueValue is here empty =>
    rw [is] at orderly
    exact untouched.closed orderly here empty
  | halfClosed id opaqueValue v type is here _ wrote marked =>
    rw [is] at orderly
    exact untouched.halfClosed orderly here wrote marked
  | appended _ _ _ is here half _ _ wrote => exact untouched.appended orderly is here half wrote
  | unresolved promised =>
    obtain ⟨reserved, open_⟩ := untouched.promised promised
    have nothing := untouched.unused (.inr reserved)
    refine ⟨untouched.calls, untouched.asserts, untouched.closing, fun _ => nothing, ?_,
      fun _ => open_, by simp⟩
    intro connecting
    rw [show s.connecting = true from connecting] at nothing
    simp at nothing
  | unconnected _ _ _ _ promised _ high low =>
    obtain ⟨reserved, _⟩ := untouched.promised promised
    have settled := (untouched.unused (.inr reserved)).2.2.2.2
    refine ⟨untouched.calls, untouched.asserts, ?_, fun _ => ⟨high, low, rfl, rfl, settled⟩, ?_, ?_,
      ?_⟩ <;> simp [initialised, settled]
  | made _ _ _ made =>
    have before : Untouched { s with promised := false } :=
      ⟨untouched.calls, untouched.asserts, untouched.closing, untouched.unused, untouched.request,
        untouched.free, by simp⟩
    exact before.made made rfl

theorem Untouched.calledBack {s t : SnSocket} (untouched : Untouched s)
    (calledBack : s.CalledBack t) : Untouched t := by
  -- While a request to connect is in flight the handle is open and the slot in use.
  have connects : s.connecting = true → s.handle ≠ .closing ∧ s.type ≠ .reserve := by
    intro connecting
    constructor
    · intro closing
      rw [(untouched.closing closing).2.2.2.2] at connecting
      contradiction
    · intro reserved
      rw [(untouched.unused (.inr reserved)).2.2.2.2] at connecting
      contradiction
  have done : s.connecting = true → Untouched { s with connecting := false } := by
    intro connecting
    refine ⟨untouched.calls, untouched.asserts, ?_, ?_, by simp, untouched.free,
      untouched.promised⟩
    · intro closing
      exact absurd closing (connects connecting).1
    · intro unused
      obtain ⟨high, low, reading, listening, _⟩ := untouched.unused unused
      exact ⟨high, low, reading, listening, rfl⟩
  cases calledBack with
  | same => exact untouched
  | readError opened reading =>
    have settled : s.connecting = false := by
      by_contra connecting
      rw [(untouched.request (by simpa using connecting)).2.1] at reading
      contradiction
    have quiet : Untouched { s with reading := false } := by
      refine ⟨untouched.calls, untouched.asserts, ?_, ?_, by simp [settled], untouched.free,
        untouched.promised⟩
      · intro closing
        rw [show s.handle = .closing from closing] at opened
        contradiction
      · intro unused
        rw [(untouched.unused unused).2.2.1] at reading
        contradiction
    refine quiet.forceClose (by simp [opened]) ?_ settled
    intro reserved
    rw [(untouched.unused (.inr reserved)).2.2.1] at reading
    contradiction
  | connectError connecting =>
    exact (done connecting).forceClose (connects connecting).1 (connects connecting).2 rfl
  | readFails connecting opened =>
    have called : Untouched ({ s with connecting := false }.uvReadStart false) := by
      have before := done connecting
      refine ⟨?_, before.asserts, fun closing => absurd closing (connects connecting).1, ?_,
        by simp [uvReadStart, uvCall], before.free, before.promised⟩
      · simp [uvReadStart, uvCall, opened, untouched.calls]
      · intro unused
        simpa [uvReadStart, uvCall] using before.unused unused
    refine called.forceClose (connects connecting).1 (connects connecting).2 rfl
  | connected connecting opened =>
    refine ⟨?_, untouched.asserts, ?_, ?_, ?_, ?_, ?_⟩ <;>
      simp [uvReadStart, uvCall, opened, untouched.calls]
    by_contra promised
    exact (connects connecting).2 (untouched.promised (by simpa using promised)).1
  | sendError =>
    exact ⟨untouched.calls, untouched.asserts, untouched.closing, untouched.unused,
      untouched.request, untouched.free, untouched.promised⟩
  | sent request _ _ _ _ _ _ list wrote =>
    have filled : ¬(s.high = [] ∧ s.low = []) := by
      rintro ⟨high, low⟩
      cases which : request.list <;> simp [SnSocket.list, which, high, low] at list
    have open_ : s.handle ≠ .closing := by
      intro closing
      obtain ⟨high, low, _⟩ := untouched.closing closing
      exact filled ⟨high, low⟩
    refine Untouched.wrote ?_ ?_ wrote
    case refine_2 => exact open_
    refine ⟨untouched.calls, untouched.asserts, ?_, ?_, untouched.request, untouched.free,
      untouched.promised⟩
    · intro closing
      exact absurd closing open_
    · intro unused
      obtain ⟨high, low, _⟩ := untouched.unused unused
      exact absurd ⟨high, low⟩ filled
  | listenError opened listening =>
    have settled : s.connecting = false := by
      by_contra connecting
      rw [(untouched.request (by simpa using connecting)).2.2] at listening
      contradiction
    refine untouched.forceClose (by simp [opened]) ?_ settled
    intro reserved
    rw [(untouched.unused (.inr reserved)).2.2.2.1] at listening
    contradiction
  | closed closing requests settled =>
    have nothing := untouched.closing closing
    refine ⟨untouched.calls, untouched.asserts, by simp, fun _ => nothing, by simp [settled],
      by simp, ?_⟩
    intro promised
    exact absurd closing (untouched.promised promised).2

end SnSocket

open Pskynet.Socket.Server

def Connects (_ : SnSocket) (c : Command) (u : Results) : Prop :=
  ∀ id opaqueValue, c = .connect id opaqueValue → u.connects = true

theorem vacant_kept : Kept (fun _ s => s.Vacant) Connects where
  reserve _ _ _ vacant free := ⟨by simp [SnSocket.reserve], fun _ => vacant.invalid free⟩
  accepted s id opaqueValue u after made _ _ unpromised done :=
    .of_made (SnSocket.accepted_made s after id opaqueValue u made done) unpromised
  command s c u after events vacant connects done :=
    vacant.commanded connects (SnSocket.ctrlCmd_commanded s after c u events done)
  callback _ s k u after events vacant done :=
    vacant.calledBack (SnSocket.callback_calledBack s after k u events done)

theorem reusable_slot_vacant (memory : Nat → SnSocket) (allocId : Int32) (sv : Server)
    (path : Path next (Allows Connects) (create memory allocId) sv) (i : Nat)
    (free : (sv.slot i).type = .invalid) : (sv.slot i).handle = .absent :=
  (path_all vacant_kept path (fun _ => ⟨fun _ => rfl, fun _ => rfl⟩) i).invalid free

def SnSocket.blank : SnSocket where
  opaqueValue := 0
  high := []
  low := []
  wbSize := 0
  protocol := .tcp
  id := 0
  type := .invalid
  udpAddress := []
  write := false
  handle := .absent
  reading := false
  listening := false
  connecting := false
  requests := []
  closeCalled := false
  misused := false
  asserted := false
  promised := false
  submitted := []
  handed := []
  completed := 0

def Server.blank : Server := create (fun _ => SnSocket.blank) 0

def Results.success : Results where
  address := true
  opens := true
  reads := true
  connects := true
  binds := true
  listens := true
  writes := true
  accepts := true

def boundAndClosed : List Action :=
  [.reserve, .command (.bind 1 7) .success, .callback 1 (.read none) .success,
    .callback 1 .closed .success]

theorem closed_slot_vacant :
    ∃ sv, run next Server.blank boundAndClosed = some sv ∧ (sv.slot 1).type = .invalid ∧
      (sv.slot 1).handle = .absent := by
  have along : Along next (Allows Connects) Server.blank boundAndClosed :=
    ⟨trivial, fun _ _ _ => rfl, trivial, trivial, trivial⟩
  refine ⟨_, rfl, rfl, ?_⟩
  exact reusable_slot_vacant (fun _ => SnSocket.blank) 0 _
    (Path.of_run boundAndClosed (.refl _) along rfl) 1 rfl

-- The `_failed` exit of `open_socket` gives the slot back with the handle that `new_fd` opened.
theorem failed_connect_keeps_handle :
    ∃ sv, run next Server.blank
        [.reserve, .command (.connect 1 7) { Results.success with connects := false }] = some sv ∧
      (sv.slot 1).type = .invalid ∧ (sv.slot 1).handle = .opened :=
  ⟨_, rfl, rfl, rfl⟩

theorem untouched_kept : Kept (fun _ s => s.Untouched) SnSocket.Orderly where
  reserve s id promised untouched free := by
    have nothing := untouched.unused (.inl free)
    refine ⟨untouched.calls, untouched.asserts, untouched.closing, fun _ => nothing, ?_, ?_, ?_⟩ <;>
      simp [SnSocket.reserve, nothing, untouched.free free]
  accepted s id opaqueValue u after made untouched _ unpromised done :=
    untouched.made (SnSocket.accepted_made s after id opaqueValue u made done) unpromised
  command s c u after events untouched orderly done :=
    untouched.commanded orderly (SnSocket.ctrlCmd_commanded s after c u events done)
  callback _ s k u after events untouched done :=
    untouched.calledBack (SnSocket.callback_calledBack s after k u events done)

theorem closing_handle_untouched (memory : Nat → SnSocket) (allocId : Int32) (sv : Server)
    (path : Path next (Allows SnSocket.Orderly) (create memory allocId) sv) (i : Nat) :
    (sv.slot i).misused = false ∧ (sv.slot i).asserted = false := by
  have initial : ∀ i, ((create memory allocId).slot i).Untouched := by
    intro i
    constructor <;> simp [create]
  have untouched := path_all untouched_kept path initial i
  exact ⟨untouched.calls, untouched.asserts⟩

theorem closed_after_error_untouched :
    ∃ sv, run next Server.blank boundAndClosed = some sv ∧ (sv.slot 1).misused = false ∧
      (sv.slot 1).asserted = false := by
  have along : Along next (Allows SnSocket.Orderly) Server.blank boundAndClosed :=
    ⟨trivial, trivial, trivial, trivial, trivial⟩
  refine ⟨_, rfl, ?_⟩
  exact closing_handle_untouched (fun _ => SnSocket.blank) 0 _
    (Path.of_run boundAndClosed (.refl _) along rfl) 1

-- A close that comes between a read error and `close_cb`, and one that comes after a bind failed.
theorem late_close_misuses_handle :
    (∃ sv, run next Server.blank
        [.reserve, .command (.bind 1 7) .success, .callback 1 (.read none) .success,
          .command (.close 1 7) .success] = some sv ∧ (sv.slot 1).misused = true) ∧
      ∃ sv, run next Server.blank
        [.reserve, .command (.listen 1 7) { Results.success with binds := false },
          .command (.close 1 7) .success] = some sv ∧ (sv.slot 1).asserted = true :=
  ⟨⟨_, rfl, rfl⟩, _, rfl, rfl⟩

end Pskynet.Socket
