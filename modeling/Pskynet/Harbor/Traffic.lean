import Pskynet.Harbor.Moves

set_option autoImplicit false

namespace Pskynet.Harbor

open Server Memory

def blocks (messages : List HarborMsg) : List Nat := messages.map (·.buffer.id)

def sentBlocks (log : List Effect) : List (Int × Nat) :=
  log.filterMap fun
    | .write fd _ (some block) => some (fd, block)
    | _ => none

def greetings (log : List Effect) : List Int :=
  log.filterMap fun
    | .write fd _ none => some fd
    | _ => none

theorem sentBlocks_append (log more : List Effect) :
    sentBlocks (log ++ more) = sentBlocks log ++ sentBlocks more :=
  List.filterMap_append

theorem greetings_append (log more : List Effect) :
    greetings (log ++ more) = greetings log ++ greetings more :=
  List.filterMap_append

theorem sentBlocks_written (fd : Int) (messages : List HarborMsg) :
    sentBlocks (messages.map (written fd)) = (blocks messages).map fun block => (fd, block) := by
  rw [sentBlocks, blocks, List.filterMap_map, List.map_map]
  exact congrFun List.filterMap_eq_map messages

theorem greetings_written (fd : Int) (messages : List HarborMsg) :
    greetings (messages.map (written fd)) = [] := by
  rw [greetings, List.filterMap_map, List.filterMap_eq_nil_iff]
  intro m _
  rfl

def Silent (log : List Effect) : Prop := ∀ fd bytes block, Effect.write fd bytes block ∉ log

theorem Silent.append {log more : List Effect} (first : Silent log) (second : Silent more) :
    Silent (log ++ more) := by
  intro fd bytes block inside
  rcases List.mem_append.mp inside with left | right
  · exact first fd bytes block left
  · exact second fd bytes block right

theorem Silent.sentBlocks {log : List Effect} (silent : Silent log) : sentBlocks log = [] := by
  rw [Harbor.sentBlocks, List.filterMap_eq_nil_iff]
  intro effect inside
  cases effect with
  | write fd bytes block => exact absurd inside (silent fd bytes block)
  | send | start | close | free | error => rfl

theorem Silent.greetings {log : List Effect} (silent : Silent log) : greetings log = [] := by
  rw [Harbor.greetings, List.filterMap_eq_nil_iff]
  intro effect inside
  cases effect with
  | write fd bytes block => exact absurd inside (silent fd bytes block)
  | send | start | close | free | error => rfl

theorem silent_freed (messages : List HarborMsg) : Silent (messages.map freed) := by
  intro fd bytes block inside
  obtain ⟨m, _, same⟩ := List.mem_map.mp inside
  contradiction

def Status.flushed (status : Status) : Prop := status ≠ .wait ∧ status ≠ .handshake

-- The service reads from the link `id`: nothing is written, and only that slot changes.
structure Calm (h h' : Harbor) (id : Nat) : Prop where
  log : ∃ new, h'.log = h.log ++ new ∧ Silent new
  map : h'.map = h.map
  own : h'.id = h.id
  buffers : h'.buffers = h.buffers
  others : ∀ other, other ≠ id → h'.s other = h.s other
  fd : (h'.s id).fd = (h.s id).fd
  queue : (h'.s id).queue = (h.s id).queue
  status : (h.s id).status.flushed → (h'.s id).status.flushed

theorem Calm.refl (h : Harbor) (id : Nat) : Calm h h id :=
  ⟨⟨[], by simp, by simp [Silent]⟩, rfl, rfl, rfl, fun _ _ => rfl, rfl, rfl, fun open_ => open_⟩

theorem Calm.trans {a b c : Harbor} {id : Nat} (first : Calm a b id) (second : Calm b c id) :
    Calm a c id := by
  obtain ⟨one, oneLog, oneSilent⟩ := first.log
  obtain ⟨two, twoLog, twoSilent⟩ := second.log
  refine ⟨⟨one ++ two, ?_, oneSilent.append twoSilent⟩, second.map.trans first.map,
    second.own.trans first.own, second.buffers.trans first.buffers, ?_, second.fd.trans first.fd,
    second.queue.trans first.queue, fun open_ => second.status (first.status open_)⟩
  · rw [twoLog, oneLog, List.append_assoc]
  · intro other different
    rw [second.others other different, first.others other different]

theorem did_calm (h : Harbor) (id : Nat) (effect : Effect)
    (silent : ∀ fd bytes block, effect ≠ .write fd bytes block) : Calm h (h.did effect) id := by
  refine ⟨⟨[effect], rfl, ?_⟩, rfl, rfl, rfl, fun _ _ => rfl, rfl, rfl, fun open_ => open_⟩
  intro fd bytes block inside
  exact silent fd bytes block (List.mem_singleton.mp inside).symm

theorem setSlave_calm (h : Harbor) (id : Nat) (slave : Slave) (fd : slave.fd = (h.s id).fd)
    (queue : slave.queue = (h.s id).queue)
    (status : (h.s id).status.flushed → slave.status.flushed) : Calm h (h.setSlave id slave) id := by
  refine ⟨⟨[], by simp [Harbor.setSlave], by simp [Silent]⟩, rfl, rfl, rfl, ?_, ?_, ?_, ?_⟩
  · intro other different
    exact setSlave_other h id other slave different
  all_goals rw [setSlave_self]
  · exact fd
  · exact queue
  · exact status

theorem closeHarbor_calm (h : Harbor) (id : Nat) (empty : (h.s id).queue = none) :
    Calm h (closeHarbor h id) id := by
  rw [closeHarbor_eq]
  refine ⟨⟨_, by simp [Harbor.setSlave]; rfl, ?_⟩, rfl, rfl, rfl, ?_, ?_, ?_, ?_⟩
  · refine Silent.append ?_ (silent_freed _)
    split_ifs
    · simp [Silent]
    · simp [Silent]
  · intro other different
    exact setSlave_other _ id other _ different
  · rw [setSlave_self]
  · rw [setSlave_self, empty]
  · intro _
    rw [setSlave_self]
    exact ⟨by simp, by simp⟩

theorem forwardLocalMessage_calm (h h' : Harbor) (id : Nat) (msg : List UInt8)
    (forwarded : forwardLocalMessage h msg = some h') : Calm h h' id ∧ h'.s = h.s := by
  unfold forwardLocalMessage at forwarded
  split_ifs at forwarded with short
  simp only at forwarded
  split_ifs at forwarded
  · simp only [Option.some.injEq] at forwarded
    rw [← forwarded]
    exact ⟨did_calm _ _ _ (by simp), rfl⟩
  · simp only [Option.some.injEq] at forwarded
    rw [← forwarded]
    refine ⟨?_, rfl⟩
    exact ((did_calm _ _ _ (by simp)).trans (did_calm _ _ _ (by simp))).trans
      (did_calm _ _ _ (by simp))

theorem readHeader_calm (h h' : Harbor) (id : Nat) (buffer : List UInt8)
    (left : Option (List UInt8)) (empty : (h.s id).queue = none)
    (turn : readHeader h id buffer = (h', left)) : Calm h h' id := by
  unfold readHeader at turn
  simp only at turn
  split_ifs at turn with short long
  · rw [← (Prod.mk.inj turn).1]
    exact setSlave_calm h id _ rfl rfl fun open_ => open_
  · rw [← (Prod.mk.inj turn).1]
    have resized : Calm h (h.setSlave id
        { h.s id with size := memcpy (h.s id).size (h.s id).read (buffer.take (4 - (h.s id).read)) })
        id :=
      setSlave_calm h id _ rfl rfl fun open_ => open_
    refine (resized.trans (did_calm _ id _ (by simp))).trans (closeHarbor_calm _ id ?_)
    change ((h.setSlave id _).s id).queue = none
    rw [setSlave_self]
    exact empty
  all_goals
    rw [← (Prod.mk.inj turn).1]
    exact setSlave_calm h id _ rfl rfl fun _ => ⟨by simp, by simp⟩

theorem readContent_calm (h h' : Harbor) (id : Nat) (buffer : List UInt8)
    (left : Option (List UInt8)) (turn : readContent h id buffer = some (h', left)) :
    Calm h h' id := by
  unfold readContent at turn
  simp only at turn
  by_cases short : buffer.length < (h.s id).length - (h.s id).read
  · simp only [short, if_true, Option.some.injEq, Prod.mk.injEq] at turn
    rw [← turn.1]
    exact setSlave_calm h id _ rfl rfl fun open_ => open_
  · simp only [short, if_false, Option.map_eq_some_iff, Prod.mk.injEq] at turn
    obtain ⟨middle, forwarded, rfl, _⟩ := turn
    obtain ⟨calm, slots⟩ := forwardLocalMessage_calm h middle id _ forwarded
    refine calm.trans (setSlave_calm middle id _ ?_ ?_ fun _ => ⟨by simp, by simp⟩)
    · rw [slots]
    · rw [slots]

theorem readMessage_calm (h h' : Harbor) (id : Nat) (buffer : List UInt8)
    (left : Option (List UInt8)) (empty : (h.s id).queue = none)
    (turn : readMessage h id buffer = some (h', left)) : Calm h h' id := by
  unfold readMessage at turn
  cases header : readHeader h id buffer with
  | mk middle rest =>
    have first := readHeader_calm h middle id buffer rest empty header
    rw [header] at turn
    cases rest with
    | none =>
      simp only [Option.some.injEq, Prod.mk.injEq] at turn
      rwa [turn.1] at first
    | some more => exact first.trans (readContent_calm middle h' id more left turn)

theorem socketLoop_calm (turns : Nat) (h h' : Harbor) (id : Nat) (fd : Int) (buffer : List UInt8)
    (ready : (h.s id).status ≠ .handshake) (empty : (h.s id).status.flushed → (h.s id).queue = none)
    (done : socketLoop turns h id fd buffer = some h') : Calm h h' id := by
  induction turns generalizing h buffer with
  | zero => contradiction
  | succ turns ih =>
    unfold socketLoop at done
    cases turn : socketTurn h id fd buffer with
    | none =>
      rw [turn] at done
      contradiction
    | some pair =>
      obtain ⟨middle, left⟩ := pair
      rw [turn] at done
      have step : Calm h middle id ∧ (left ≠ none → (h.s id).status.flushed) := by
        unfold socketTurn at turn
        cases status : (h.s id).status with
        | handshake => exact absurd status ready
        | header =>
          rw [status] at turn
          exact ⟨readMessage_calm h middle id buffer left (empty (by simp [status, Status.flushed]))
            turn, fun _ => by simp [Status.flushed]⟩
        | content =>
          rw [status] at turn
          exact ⟨readContent_calm h middle id buffer left turn, fun _ => by simp [Status.flushed]⟩
        | wait | down =>
          rw [status] at turn
          simp only [Option.some.injEq, Prod.mk.injEq] at turn
          rw [← turn.1, ← turn.2]
          exact ⟨Calm.refl h id, by simp⟩
      cases left with
      | none =>
        simp only [Option.some.injEq] at done
        rw [← done]
        exact step.1
      | some left =>
        have open_ := step.2 (by simp)
        refine step.1.trans (ih middle left (step.1.status open_).2 ?_ done)
        intro _
        rw [step.1.queue, empty open_]

-- The handle that a remote message goes to; 0 while its name is not bound.
def resolve (h : Harbor) (handle : UInt32) (name : Name) : UInt32 :=
  if handle = 0 then ((hashSearch h.map name).map (·.value)).getD 0 else handle

def remoteMsg (h : Harbor) (source destination : UInt32) (type : UInt8) (session : UInt32)
    (message : List UInt8) : HarborMsg where
  header :=
    { source := source
      destination := type.toUInt32 <<< 24 ||| destination &&& handleMask
      session := session }
  buffer := { id := h.buffers, bytes := message }

-- The messages that an event submits to the queue or the link of a harbor: one whose handle is
-- known, or those that wait for the name that is bound.
def submits (h : Harbor) (event : Event) (k : Nat) : List HarborMsg :=
  match event with
  | .remote source handle name type session message =>
      let destination := resolve h handle name
      if destination ≠ 0 ∧ destination >>> 24 ≠ h.id ∧ (destination >>> 24).toNat = k then
        [remoteMsg h source destination type session message]
      else []
  | .command msg source =>
      match bindsName msg with
      | some name =>
          if source >>> 24 ≠ 0 ∧ (source >>> 24).toNat = k then waiting h name else []
      | none => []
  | _ => []

-- The messages that wait for a harbor when `close_harbor` is called for it. It is called with
-- messages in the queue only where the handshake byte is wrong.
def refused (h : Harbor) (event : Event) (k : Nat) : List HarborMsg :=
  match event with
  | .data fd (first :: _) =>
      if k ≠ 0 ∧ harborId h fd = k ∧ (h.s k).status = .handshake ∧ first.toNat ≠ k then
        queued (h.s k).queue
      else []
  | _ => []

-- No name with messages is bound to a harbor whose handshake is still to come.
def Patient (h : Harbor) : Event → Prop
  | .command msg source => ∀ name, bindsName msg = some name →
      (h.s (source >>> 24).toNat).status = .handshake → waiting h name = []
  | _ => True

-- What an event does to the links: only the slot `k` changes, and `sent` is written to it.
structure Traffic (h : Harbor) (event : Event) (h' : Harbor) (k : Nat) (sent : List Nat) :
    Prop where
  log : ∃ new, h'.log = h.log ++ new ∧
    sentBlocks new = sent.map (fun block => ((h'.s k).fd, block)) ∧
    ∀ fd ∈ greetings new, (h.s k).fd = 0 ∧ (h'.s k).fd = fd
  others : ∀ other, other ≠ k →
    h'.s other = h.s other ∧ submits h event other = [] ∧ refused h event other = []
  fd : (h.s k).fd ≠ 0 → (h'.s k).fd = (h.s k).fd
  order : Patient h event ∨ (h.s k).status ≠ .handshake →
    blocks (queued (h.s k).queue) ++ blocks (submits h event k) =
      sent ++ blocks (refused h event k) ++ blocks (queued (h'.s k).queue)
  early : Patient h event → ¬(h'.s k).status.flushed →
    ¬(h.s k).status.flushed ∧ sent = [] ∧ refused h event k = []

theorem Calm.traffic {base h' : Harbor} {id : Nat} (calm : Calm base h' id) (h : Harbor)
    (slots : base.s = h.s) (same : base.log = h.log) (event : Event) (submitted : ∀ k, submits h event k = [])
    (kept : ∀ k, refused h event k = []) : Traffic h event h' id [] := by
  obtain ⟨new, log, silent⟩ := calm.log
  rw [same] at log
  have fd := calm.fd
  have queue := calm.queue
  have status := calm.status
  rw [slots] at fd queue status
  refine ⟨⟨new, log, silent.sentBlocks, ?_⟩, ?_, fun _ => fd, ?_, ?_⟩
  · rw [silent.greetings]
    simp
  · intro other different
    rw [← slots]
    exact ⟨calm.others other different, submitted other, kept other⟩
  · intro _
    rw [submitted, kept, queue]
    simp [blocks]
  · intro _ early
    exact ⟨fun open_ => early (status open_), rfl, kept id⟩

theorem quiet_traffic (h h' : Harbor) (event : Event) (k : Nat) (new : List Effect)
    (log : h'.log = h.log ++ new) (silent : Silent new) (slots : h'.s = h.s)
    (submitted : ∀ k, submits h event k = []) (kept : ∀ k, refused h event k = []) :
    Traffic h event h' k [] := by
  refine ⟨⟨new, log, silent.sentBlocks, ?_⟩, ?_, ?_, ?_, ?_⟩
  · rw [silent.greetings]
    simp
  · intro other _
    exact ⟨by rw [slots], submitted other, kept other⟩
  · intro _
    rw [slots]
  · intro _
    rw [submitted, kept, slots]
    simp [blocks]
  · intro _ early
    rw [slots] at early
    exact ⟨early, rfl, kept k⟩

def released (result : Harbor × Bool) (block : Nat) : Harbor :=
  if result.2 then result.1 else result.1.did (.free block)

theorem remoteSendHandle_traffic (h base : Harbor) (source destination : UInt32) (type : UInt8)
    (session : UInt32) (message : List UInt8) (wired : Wired h) (event : Event)
    (submitted : ∀ k, submits h event k =
      if destination >>> 24 ≠ h.id ∧ (destination >>> 24).toNat = k then
        [remoteMsg h source destination type session message] else [])
    (kept : ∀ k, refused h event k = []) (slots : base.s = h.s) (own : base.id = h.id)
    (log : base.log = h.log) (h' : Harbor)
    (sent : h' = released (remoteSendHandle base source destination type session
      { id := h.buffers, bytes := message }) h.buffers) :
    ∃ sent, Traffic h event h' (destination >>> 24).toNat sent := by
  have others (other : Nat) (different : other ≠ (destination >>> 24).toNat) :
      submits h event other = [] := by
    rw [submitted, if_neg (fun both => different both.2.symm)]
  have slot := wired (destination >>> 24).toNat
  unfold released remoteSendHandle at sent
  simp only [slots, own] at sent
  by_cases localMessage : destination >>> 24 = h.id
  · have none (k : Nat) : submits h event k = [] := by
      rw [submitted, if_neg (fun both => both.1 localMessage)]
    rw [if_pos localMessage] at sent
    simp only [if_true] at sent
    rw [sent]
    exact ⟨[], quiet_traffic h _ event _ _ (by rw [Harbor.did, log]) (by simp [Silent]) slots none
      kept⟩
  rw [if_neg localMessage] at sent
  have mine : submits h event (destination >>> 24).toNat =
      [remoteMsg h source destination type session message] := by
    rw [submitted, if_pos ⟨localMessage, rfl⟩]
  by_cases early : (h.s (destination >>> 24).toNat).fd = 0 ∨
      (h.s (destination >>> 24).toNat).status = .handshake
  · have up : (h.s (destination >>> 24).toNat).status ≠ .down := by
      rcases early with free | shake
      · intro down
        exact slot.linked (by rw [down]; decide) free
      · rw [shake]
        decide
    rw [if_pos early, if_neg up] at sent
    simp only [if_true] at sent
    rw [sent]
    refine ⟨[], ⟨[], by simp [Harbor.setSlave, log], rfl, by simp [greetings]⟩, ?_, ?_, ?_, ?_⟩
    · intro other different
      rw [setSlave_other _ _ _ _ different, slots]
      exact ⟨rfl, others other different, kept other⟩
    · intro _
      rw [setSlave_self]
    · intro _
      rw [setSlave_self, mine, kept, queued_some, contents_pushQueueMsg, queued_getD]
      simp [blocks, remoteMsg]
    · intro _ still
      rw [setSlave_self] at still
      exact ⟨still, rfl, kept _⟩
  · rw [if_neg early] at sent
    simp only [Bool.false_eq_true, if_false] at sent
    have open_ : (h.s (destination >>> 24).toNat).status.flushed := by
      refine ⟨fun wait => early (.inl (slot.idle wait)), fun shake => early (.inr shake)⟩
    have empty := slot.flushed open_.1 open_.2
    have unchanged : h'.s = h.s := by
      rw [sent]
      exact slots
    have grown : h'.log = h.log ++ [written (h.s (destination >>> 24).toNat).fd
        (remoteMsg h source destination type session message), .free h.buffers] := by
      rw [sent]
      simp only [sendRemote, Harbor.did, log, List.append_assoc, List.singleton_append]
      rfl
    refine ⟨[h.buffers], ⟨_, grown, ?_, ?_⟩, ?_, ?_, ?_, ?_⟩
    · rw [unchanged]
      rfl
    · simp [greetings, written]
    · intro other different
      exact ⟨by rw [unchanged], others other different, kept other⟩
    · intro _
      rw [unchanged]
    · intro _
      rw [unchanged, mine, kept, empty]
      rfl
    · intro _ still
      rw [unchanged] at still
      exact absurd open_ still

theorem value_hashNode (hash : HashMap) (name : Name) :
    ((hashSearch (hashNode hash name) name).map (·.value)).getD 0 =
      ((hashSearch hash name).map (·.value)).getD 0 := by
  unfold hashNode
  split_ifs with missing
  · have gone : hashSearch hash name = none := by simpa using missing
    rw [hashSearch_hashInsert, if_pos rfl, gone]
    rfl
  · rfl

theorem mainloop_remote_traffic (h h' : Harbor) (source handle : UInt32) (name : Name)
    (type : RemoteType) (session : UInt32) (message : List UInt8) (wired : Wired h)
    (done : mainloop h (.remote source handle name type session message) = some h') :
    ∃ k sent, Traffic h (.remote source handle name type session message) h' k sent := by
  have kept (k : Nat) : refused h (.remote source handle name type session message) k = [] := rfl
  simp only [mainloop, Option.some.injEq] at done
  have submitted (destination : UInt32) (resolved : resolve h handle name = destination)
      (known : destination ≠ 0) (k : Nat) :
      submits h (.remote source handle name type session message) k =
        if destination >>> 24 ≠ h.id ∧ (destination >>> 24).toNat = k then
          [remoteMsg h source destination type session message] else [] := by
    simp only [submits, resolved, ne_eq, known, not_false_eq_true, true_and]
  by_cases named : handle = 0
  · rw [if_pos named] at done
    have value : ((hashSearch (hashNode h.map name) name).map (·.value)).getD 0 =
        resolve h handle name := by
      rw [value_hashNode, resolve, if_pos named]
    unfold remoteSendName at done
    simp only [value] at done
    by_cases unbound : resolve h handle name = 0
    · rw [if_pos unbound] at done
      simp only [if_true] at done
      refine ⟨0, [], quiet_traffic h h' _ 0 [.send 0 h.slave 0 0
        ([0x51, 0x20] ++ cString (List.ofFn name)) none] ?_ (by simp [Silent]) ?_ ?_ kept⟩
      · rw [← done]
        rfl
      · rw [← done]
        rfl
      · intro k
        simp only [submits, unbound, ne_eq, not_true_eq_false, false_and, if_false]
    · rw [if_neg unbound] at done
      obtain ⟨sent, traffic⟩ := remoteSendHandle_traffic h
        { h with buffers := h.buffers + 1, map := hashNode h.map name } source _ type session message
        wired _ (submitted _ rfl unbound) kept rfl rfl rfl h' done.symm
      exact ⟨_, sent, traffic⟩
  · rw [if_neg named] at done
    have resolved : resolve h handle name = handle := if_neg named
    obtain ⟨sent, traffic⟩ := remoteSendHandle_traffic h { h with buffers := h.buffers + 1 } source
      handle type session message wired _ (submitted handle resolved named) kept rfl rfl rfl h'
      done.symm
    exact ⟨_, sent, traffic⟩

theorem readHandshake_traffic (h h' : Harbor) (id : Nat) (fd : Int) (first : UInt8)
    (rest : List UInt8) (left : Option (List UInt8)) (linked : (h.s id).fd ≠ 0)
    (turn : readHandshake h id fd (first :: rest) = some (h', left)) :
    (first.toNat ≠ id ∧ left = none ∧ ∃ text, h' = closeHarbor (h.did (.error text)) id) ∨
      (first.toNat = id ∧ ∃ middle, Calm middle h' id ∧
        middle = Harbor.setSlave
          { h with log := h.log ++ (queued (h.s id).queue).map (written (h.s id).fd) } id
          { h.s id with status := .header, queue := none }) := by
  unfold readHandshake at turn
  simp only at turn
  by_cases wrong : first.toNat ≠ id
  · rw [if_pos wrong] at turn
    simp only [Option.some.injEq, Prod.mk.injEq] at turn
    exact .inl ⟨wrong, turn.2.symm, _, turn.1.symm⟩
  · rw [if_neg wrong] at turn
    obtain ⟨middle, opened, more⟩ := Option.bind_eq_some_iff.mp turn
    rw [dispatchQueue_eq _ _ (by rw [setSlave_self]; exact linked), setSlave_self] at opened
    have same : middle = Harbor.setSlave
        { h with log := h.log ++ (queued (h.s id).queue).map (written (h.s id).fd) } id
        { h.s id with status := .header, queue := none } := by
      rw [← Option.some.inj opened]
      simp [Harbor.setSlave]
    refine .inr ⟨not_not.mp wrong, middle, ?_, same⟩
    split_ifs at more
    · simp only [Option.some.injEq, Prod.mk.injEq] at more
      rw [← more.1]
      exact Calm.refl _ _
    · refine readMessage_calm middle h' id rest left ?_ more
      rw [same, setSlave_self]

theorem socketLoop_greeted (turns : Nat) (h h' : Harbor) (id : Nat) (fd : Int)
    (first : UInt8) (rest : List UInt8) (status : (h.s id).status = .handshake)
    (linked : (h.s id).fd ≠ 0) (done : socketLoop turns h id fd (first :: rest) = some h') :
    (first.toNat ≠ id ∧ ∃ text, h' = closeHarbor (h.did (.error text)) id) ∨
      (first.toNat = id ∧ Calm (Harbor.setSlave
          { h with log := h.log ++ (queued (h.s id).queue).map (written (h.s id).fd) } id
          { h.s id with status := .header, queue := none }) h' id) := by
  cases turns with
  | zero => contradiction
  | succ turns =>
    unfold socketLoop at done
    cases turn : socketTurn h id fd (first :: rest) with
    | none =>
      rw [turn] at done
      contradiction
    | some pair =>
      obtain ⟨next, left⟩ := pair
      rw [turn] at done
      unfold socketTurn at turn
      rw [status] at turn
      rcases readHandshake_traffic h next id fd first rest left linked turn with
        ⟨wrong, none, text, closed⟩ | ⟨right, middle, calm, same⟩
      · rw [none] at done
        simp only [Option.some.injEq] at done
        exact .inl ⟨wrong, text, by rw [← done, closed]⟩
      · rw [same] at calm
        refine .inr ⟨right, ?_⟩
        cases left with
        | none =>
          simp only [Option.some.injEq] at done
          rwa [← done]
        | some left =>
          have open_ : (next.s id).status.flushed := by
            refine calm.status ?_
            rw [setSlave_self]
            exact ⟨by simp, by simp⟩
          refine calm.trans (socketLoop_calm turns next h' id fd left open_.2 ?_ done)
          intro _
          rw [calm.queue, setSlave_self]

theorem refused_other (h : Harbor) (fd : Int) (bytes : List UInt8) (k : Nat)
    (other : harborId h fd ≠ k ∨ (h.s k).status ≠ .handshake) : refused h (.data fd bytes) k = [] := by
  cases bytes with
  | nil => rfl
  | cons first rest =>
    rw [refused, if_neg]
    rintro ⟨_, same, status, _⟩
    rcases other with other | other
    · exact other same
    · exact other status

theorem refused_traffic (h base last : Harbor) (fd : Int) (id : Nat) (first : UInt8)
    (rest : List UInt8) (same : harborId h fd = id) (known : id ≠ 0)
    (status : (h.s id).status = .handshake) (wrong : first.toNat ≠ id) (linked : (h.s id).fd ≠ 0)
    (text : String) (slots : base.s = h.s) (log : base.log = h.log)
    (closed : last = closeHarbor (base.did (.error text)) id) :
    Traffic h (.data fd (first :: rest)) (last.did (.free h.buffers)) id [] ∧
      ∃ new, (last.did (.free h.buffers)).log = h.log ++ new ∧
        ∀ source destination type session payload block,
          Effect.send source destination type session payload block ∉ new := by
  have dropped : refused h (.data fd (first :: rest)) id = queued (h.s id).queue := by
    rw [refused, if_pos ⟨known, same, status, wrong⟩]
  have slot : (base.did (.error text)).s id = h.s id := by
    change base.s id = h.s id
    rw [slots]
  have grown : (last.did (.free h.buffers)).log = h.log ++ ([.error text, .close (h.s id).fd] ++
      (queued (h.s id).queue).map freed ++ [.free h.buffers]) := by
    rw [closed, closeHarbor_eq, slot, if_pos linked]
    simp [Harbor.did, Harbor.setSlave, log]
  have silent : Silent ([.error text, .close (h.s id).fd] ++ (queued (h.s id).queue).map freed ++
      [.free h.buffers]) :=
    (Silent.append (by simp [Silent]) (silent_freed _)).append (by simp [Silent])
  have after : (last.did (.free h.buffers)).s id =
      { h.s id with status := .down, queue := none } := by
    rw [closed, closeHarbor_eq, slot]
    exact setSlave_self _ _ _
  refine ⟨⟨⟨_, grown, silent.sentBlocks, ?_⟩, ?_, ?_, ?_, ?_⟩, _, grown, ?_⟩
  · rw [silent.greetings]
    simp
  · intro other different
    refine ⟨?_, rfl, refused_other h fd _ other (.inl fun met => different (met.symm.trans same))⟩
    rw [closed, closeHarbor_eq]
    change (Harbor.setSlave _ id _).s other = _
    rw [setSlave_other _ _ _ _ different, ← slots]
    rfl
  · intro _
    rw [after]
  · intro _
    rw [after, dropped]
    simp [blocks, submits]
  · intro _ early
    rw [after] at early
    exact absurd ⟨by simp, by simp⟩ early
  · intro source destination type session payload block inside
    simp [freed] at inside

theorem flushed_traffic (h base h' : Harbor) (event : Event) (id : Nat)
    (calm : Calm (Harbor.setSlave
      { base with log := h.log ++ (queued (h.s id).queue).map (written (h.s id).fd) } id
      { h.s id with status := .header, queue := none }) h' id)
    (slots : base.s = h.s) (submitted : ∀ k, submits h event k = [])
    (kept : ∀ k, refused h event k = []) :
    Traffic h event h' id (blocks (queued (h.s id).queue)) := by
  obtain ⟨new, log, silent⟩ := calm.log
  have fd := calm.fd
  have queue := calm.queue
  have status := calm.status
  rw [setSlave_self] at fd queue status
  refine ⟨⟨(queued (h.s id).queue).map (written (h.s id).fd) ++ new, ?_, ?_, ?_⟩, ?_, fun _ => fd,
    ?_, ?_⟩
  · rw [log]
    exact List.append_assoc _ _ _
  · rw [sentBlocks_append, sentBlocks_written, silent.sentBlocks, List.append_nil, fd]
  · rw [greetings_append, greetings_written, silent.greetings]
    simp
  · intro other different
    refine ⟨?_, submitted other, kept other⟩
    rw [calm.others other different, setSlave_other _ _ _ _ different, ← slots]
  · intro _
    rw [submitted, kept, queue]
    simp [blocks]
  · intro _ early
    exact absurd (status ⟨by simp, by simp⟩) early

theorem mainloop_data_traffic (h h' : Harbor) (fd : Int) (bytes : List UInt8) (wired : Wired h)
    (done : mainloop h (.data fd bytes) = some h') :
    ∃ k sent, Traffic h (.data fd bytes) h' k sent := by
  have submitted (k : Nat) : submits h (.data fd bytes) k = [] := rfl
  simp only [mainloop, Option.map_eq_some_iff] at done
  obtain ⟨last, pushed, rfl⟩ := done
  have freeing (id : Nat) := did_calm last id (.free h.buffers) (by simp)
  unfold pushSocketData at pushed
  simp only at pushed
  by_cases unknown : harborId { h with buffers := h.buffers + 1 } fd = 0
  · rw [if_pos unknown] at pushed
    simp only [Option.some.injEq] at pushed
    refine ⟨0, [], quiet_traffic h _ _ 0 [.free h.buffers,
      .error ("Invalid socket fd (" ++ toString fd ++ ") data"), .free h.buffers] ?_
      (by simp [Silent]) ?_ submitted ?_⟩
    · rw [← pushed]
      simp [Harbor.did]
    · rw [← pushed]
      rfl
    · intro k
      cases bytes with
      | nil => rfl
      | cons first rest =>
        rw [refused, if_neg]
        rintro ⟨positive, same, _⟩
        exact positive (same.symm.trans unknown)
  · rw [if_neg unknown] at pushed
    generalize found : harborId { h with buffers := h.buffers + 1 } fd = id at pushed unknown
    have same : harborId h fd = id := found
    have slot := wired id
    by_cases status : (h.s id).status = .handshake
    · have linked : (h.s id).fd ≠ 0 := slot.linked (by rw [status]; decide)
      cases bytes with
      | nil =>
        simp only [socketLoop, socketTurn, status, readHandshake] at pushed
        contradiction
      | cons first rest =>
        have others (other : Nat) (different : other ≠ id) :
            refused h (.data fd (first :: rest)) other = [] :=
          refused_other h fd _ other (.inl fun met => different (met.symm.trans same))
        rcases socketLoop_greeted _ { h with buffers := h.buffers + 1 } last id fd first rest status
          linked pushed with ⟨wrong, text, closed⟩ | ⟨right, calm⟩
        · exact ⟨id, [], (refused_traffic h { h with buffers := h.buffers + 1 } last fd id first rest
            same unknown status wrong linked text rfl rfl closed).1⟩
        · refine ⟨id, _, flushed_traffic h _ _ _ id (calm.trans (freeing id)) rfl submitted ?_⟩
          intro k
          by_cases here : k = id
          · rw [refused, if_neg (fun all => all.2.2.2 (here ▸ right))]
          · exact others k here
    · have calm := socketLoop_calm _ { h with buffers := h.buffers + 1 } last id fd bytes status
        (fun open_ => slot.flushed open_.1 open_.2) pushed
      refine ⟨id, [], (calm.trans (freeing id)).traffic h rfl rfl _ submitted ?_⟩
      intro k
      by_cases here : k = id
      · exact refused_other h fd bytes k (.inr (here ▸ status))
      · exact refused_other h fd bytes k (.inl fun met => here (met.symm.trans same))

theorem openLink_traffic (h h' : Harbor) (fd : Int) (id : Nat) (connect : Bool) (linked : fd ≠ 0)
    (free : (h.s id).fd = 0) (wired : Wired h) (event : Event)
    (submitted : ∀ k, submits h event k = []) (kept : ∀ k, refused h event k = [])
    (opened : openLink h fd id connect = some h') : ∃ sent, Traffic h event h' id sent := by
  have early : (h.s id).status = .wait := by
    by_contra other
    exact (wired id).linked other free
  unfold openLink at opened
  simp only at opened
  split_ifs at opened with connecting
  · have after : h' = Harbor.setSlave
        { h with log := h.log ++ [.start fd, .write fd [h.id.toUInt8] none] } id
        { h.s id with fd := fd, status := .handshake } := by
      rw [← Option.some.inj opened]
      simp [handshake, Harbor.did, Harbor.setSlave]
    rw [after]
    refine ⟨[], ⟨_, rfl, rfl, ?_⟩, ?_, ?_, ?_, ?_⟩
    · rw [setSlave_self]
      simp [greetings, free]
    · intro other different
      exact ⟨setSlave_other _ _ _ _ different, submitted other, kept other⟩
    · intro other
      exact absurd free other
    · intro _
      rw [submitted, kept, setSlave_self]
      simp [blocks]
    · intro _ _
      exact ⟨fun open_ => open_.1 early, rfl, kept id⟩
  · have after : h' = Harbor.setSlave { h with log := h.log ++ ([.start fd,
          .write fd [h.id.toUInt8] none] ++ (queued (h.s id).queue).map (written fd)) } id
        { h.s id with fd := fd, status := .header, queue := none } := by
      rw [dispatchQueue_eq _ _ (by simpa [Harbor.setSlave, handshake, Harbor.did] using linked)]
        at opened
      rw [← Option.some.inj opened]
      simp [handshake, Harbor.did, Harbor.setSlave]
    rw [after]
    refine ⟨blocks (queued (h.s id).queue), ⟨_, rfl, ?_, ?_⟩, ?_, ?_, ?_, ?_⟩
    · rw [setSlave_self, sentBlocks_append, sentBlocks_written]
      rfl
    · rw [setSlave_self, greetings_append, greetings_written]
      simp [greetings, free]
    · intro other different
      exact ⟨setSlave_other _ _ _ _ different, submitted other, kept other⟩
    · intro other
      exact absurd free other
    · intro _
      rw [submitted, kept, setSlave_self]
      simp [blocks]
    · intro _ still
      rw [setSlave_self] at still
      exact absurd ⟨by simp, by simp⟩ still

theorem blocks_complete (messages : List HarborMsg) (handle : UInt32) :
    blocks (messages.map fun m => m.complete handle) = blocks messages := by
  rw [blocks, List.map_map]
  rfl

theorem bind_traffic (h h' : Harbor) (msg : List UInt8) (source : UInt32) (name : Name)
    (wired : Wired h) (binds : bindsName msg = some name)
    (done : updateName h name source = some h') :
    ∃ k sent, Traffic h (.command msg source) h' k sent := by
  have kept (k : Nat) : refused h (.command msg source) k = [] := rfl
  have submitted (k : Nat) : submits h (.command msg source) k =
      if source >>> 24 ≠ 0 ∧ (source >>> 24).toNat = k then waiting h name else [] := by
    simp only [submits, binds]
  have patient : Patient h (.command msg source) →
      (h.s (source >>> 24).toNat).status = .handshake → waiting h name = [] :=
    fun patient => patient name binds
  obtain ⟨_, _, ⟨none, log, slots⟩ | ⟨remote, bound⟩⟩ := updateName_cases h h' name source done
  · refine ⟨0, [], quiet_traffic h h' _ 0 [] (by rw [log, List.append_nil]) (by simp [Silent]) slots
      ?_ kept⟩
    intro k
    rw [submitted, none, ite_self]
  · have slot := wired (source >>> 24).toNat
    have others (other : Nat) (different : other ≠ (source >>> 24).toNat) :
        submits h (.command msg source) other = [] := by
      rw [submitted, if_neg (fun both => different both.2.symm)]
    have mine : submits h (.command msg source) (source >>> 24).toNat = waiting h name := by
      rw [submitted, if_pos ⟨remote, rfl⟩]
    cases bound with
    | dropped free down => exact absurd free (slot.linked (by rw [down]; decide))
    | moved free queue contents log slots =>
      refine ⟨(source >>> 24).toNat, [],
        ⟨[], by rw [log, List.append_nil], rfl, by simp [greetings]⟩, ?_, ?_, ?_, ?_⟩
      · intro other different
        rw [slots, Function.update_of_ne different]
        exact ⟨rfl, others other different, kept other⟩
      · intro linked
        exact absurd free linked
      · intro _
        rw [mine, kept, slots, Function.update_self, contents]
        simp [blocks]
      · intro _ still
        rw [slots, Function.update_self] at still
        exact ⟨still, rfl, rfl⟩
    | sent linked log slots =>
      have all : (waiting h name).map (fun m =>
          written (h.s (source >>> 24).toNat).fd (m.complete source)) =
          ((waiting h name).map fun m => m.complete source).map
            (written (h.s (source >>> 24).toNat).fd) := by
        rw [List.map_map]
        rfl
      -- With a socket the status is not `wait`; in the handshake nothing waits for the name.
      have shaking (early : ¬(h.s (source >>> 24).toNat).status.flushed) :
          (h.s (source >>> 24).toNat).status = .handshake := by
        by_contra other
        exact early ⟨fun wait => linked (slot.idle wait), other⟩
      refine ⟨(source >>> 24).toNat, blocks (waiting h name), ⟨_, log, ?_, ?_⟩, ?_, ?_, ?_, ?_⟩
      · rw [slots, all, sentBlocks_written, blocks_complete]
      · rw [all, greetings_written]
        simp
      · intro other different
        exact ⟨by rw [slots], others other different, kept other⟩
      · intro _
        rw [slots]
      · intro allowed
        rw [mine, kept, slots]
        by_cases open_ : (h.s (source >>> 24).toNat).status.flushed
        · rw [slot.flushed open_.1 open_.2]
          simp [blocks]
        · have early := shaking open_
          rw [patient (allowed.resolve_right (not_not.mpr early)) early]
          simp [blocks]
      · intro allowed still
        rw [slots] at still
        rw [patient allowed (shaking still)]
        exact ⟨still, rfl, rfl⟩

theorem harborCommand_traffic (h h' : Harbor) (msg : List UInt8) (source : UInt32) (wired : Wired h)
    (done : harborCommand h msg source = some h') :
    ∃ k sent, Traffic h (.command msg source) h' k sent := by
  have kept (k : Nat) : refused h (.command msg source) k = [] := rfl
  cases binds : bindsName msg with
  | some name =>
    rw [harborCommand_binds h msg source name binds] at done
    exact bind_traffic h h' msg source name wired binds done
  | none =>
    have submitted (k : Nat) : submits h (.command msg source) k = [] := by
      simp only [submits, binds]
    have failed (text : String) (same : h.did (.error text) = h') :
        ∃ k sent, Traffic h (.command msg source) h' k sent := by
      rw [← same]
      exact ⟨0, [], quiet_traffic h _ _ 0 [.error text] rfl (by simp [Silent]) rfl submitted kept⟩
    unfold harborCommand at done
    simp only at done
    split at done
    · rename_i letter
      split_ifs at done with bad
      · exact failed _ (Option.some.inj done)
      · rw [bindsName, if_pos ⟨letter, bad⟩] at binds
        contradiction
    · split_ifs at done with linking _ bad taken
      · exact failed _ (Option.some.inj done)
      · exact failed _ (Option.some.inj done)
      · exact ⟨_, openLink_traffic h h' _ _ _ (fun zero => bad (.inl zero)) (not_not.mp taken) wired _
          submitted kept done⟩
      · exact failed _ (Option.some.inj done)
    · exact failed _ (Option.some.inj done)

theorem mainloop_traffic (h h' : Harbor) (event : Event) (wired : Wired h)
    (done : mainloop h event = some h') : ∃ k sent, Traffic h event h' k sent := by
  have quiet (text : Effect) (silent : ∀ fd bytes block, text ≠ .write fd bytes block)
      (submitted : ∀ k, submits h event k = []) (kept : ∀ k, refused h event k = [])
      (same : h.did text = h') : ∃ k sent, Traffic h event h' k sent := by
    rw [← same]
    exact ⟨0, [], (did_calm h 0 text silent).traffic h rfl rfl event submitted kept⟩
  cases event with
  | data fd bytes => exact mainloop_data_traffic h h' fd bytes wired done
  | closed fd =>
    simp only [mainloop] at done
    split_ifs at done
    · exact quiet _ (by simp) (fun _ => rfl) (fun _ => rfl) (Option.some.inj done)
    · exact quiet _ (by simp) (fun _ => rfl) (fun _ => rfl) (Option.some.inj done)
  | connected fd =>
    simp only [mainloop, Option.some.injEq] at done
    rw [← done]
    exact ⟨0, [], (Calm.refl h 0).traffic h rfl rfl _ (fun _ => rfl) (fun _ => rfl)⟩
  | socket type =>
    exact quiet _ (by simp) (fun _ => rfl) (fun _ => rfl) (Option.some.inj done)
  | command msg source => exact harborCommand_traffic h h' msg source wired done
  | remote source handle name type session message =>
    exact mainloop_remote_traffic h h' source handle name type session message wired done
  | misread name =>
    have calm : Calm { h with buffers := h.buffers + 1 } h' 0 := by
      obtain rfl | ⟨effect, silent, rfl⟩ := misread_cases _ h' name done
      · exact .refl _ 0
      · exact did_calm _ 0 effect silent.writes
    exact ⟨0, [], calm.traffic h rfl rfl _ (fun _ => rfl) (fun _ => rfl)⟩

end Pskynet.Harbor
