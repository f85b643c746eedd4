import Mathlib.Logic.Relation
import Pskynet.Harbor.Queues
import Pskynet.Shared.Transition

set_option autoImplicit false

namespace Pskynet.Harbor

open Server Memory

-- All that can happen to a slot at once, while the log grows to `log`. Its queue takes
-- messages only where `grows` says so.
inductive SlotMove (log : List Effect) (grows : Prop) (s s' : Slave) : Prop where
  | same (slot : s' = s)
  | grow (more : List HarborMsg) (allowed : more ≠ [] → grows) (queue : Option Queue)
      (early : s.status = .wait ∨ s.status = .handshake)
      (slot : s' = { s with queue := queue }) (contents : queued queue = queued s.queue ++ more)
  | connect (fd : Int) (linked : fd ≠ 0) (early : s.status = .wait)
      (slot : s' = { s with fd := fd, status := .handshake })
  | flush (fd : Int) (linked : fd ≠ 0)
      (early : s.status = .wait ∨ s.status = .handshake ∧ s.fd = fd)
      (slot : s' = { s with fd := fd, status := .header, queue := none })
      (sent : ∀ m ∈ queued s.queue, written fd m ∈ log)
  | read (before : s.status = .header ∨ s.status = .content)
      (after : s'.status = .header ∨ s'.status = .content) (fd : s'.fd = s.fd)
      (queue : s'.queue = s.queue) (size : s.size.length = 4 → s'.size.length = 4)
  | close (linked : s.fd ≠ 0) (slot : s' = { s with status := .down, queue := none })

structure Move (grows : Nat → Prop) (h h' : Harbor) : Prop where
  log : h.log <+: h'.log
  own : h'.id = h.id
  names : ∀ name, ∀ m ∈ waiting h' name, m ∈ waiting h name ∨ Unaddressed m
  slots : ∀ id, SlotMove h'.log (grows id) (h.s id) (h'.s id)

abbrev Moves (grows : Nat → Prop) : Harbor → Harbor → Prop := Relation.ReflTransGen (Move grows)

structure WiredSlot (s : Slave) : Prop where
  linked : s.status ≠ .wait → s.fd ≠ 0
  idle : s.status = .wait → s.fd = 0
  unread : s.status = .wait ∨ s.status = .handshake → s.read = 0
  size : s.size.length = 4
  flushed : s.status ≠ .wait → s.status ≠ .handshake → s.queue = none

def Wired (h : Harbor) : Prop := ∀ id, WiredSlot (h.s id)

variable {grows : Nat → Prop}

theorem SlotMove.wired {log : List Effect} {grow : Prop} {s s' : Slave}
    (move : SlotMove log grow s s') (wired : WiredSlot s) : WiredSlot s' := by
  obtain ⟨linked, idle, unread, size, flushed⟩ := wired
  cases move with
  | same slot => exact slot ▸ ⟨linked, idle, unread, size, flushed⟩
  | grow _ _ queue early slot =>
    subst slot
    refine ⟨linked, idle, unread, size, ?_⟩
    intro notWait notShake
    rcases early with wait | shake
    · exact absurd wait notWait
    · exact absurd shake notShake
  | connect fd new early slot =>
    subst slot
    exact ⟨fun _ => new, by simp, fun _ => unread (.inl early), size, fun _ no => absurd rfl no⟩
  | flush fd new early slot =>
    subst slot
    exact ⟨fun _ => new, by simp, by simp, size, fun _ _ => rfl⟩
  | read before after fd queue same =>
    have now : s.status ≠ .wait ∧ s.status ≠ .handshake := by
      rcases before with h | h <;> simp [h]
    have later : s'.status ≠ .wait ∧ s'.status ≠ .handshake := by
      rcases after with h | h <;> simp [h]
    refine ⟨fun _ => fd ▸ linked now.1, fun wait => absurd wait later.1, ?_, same size,
      fun _ _ => queue ▸ flushed now.1 now.2⟩
    rintro (wait | shake)
    · exact absurd wait later.1
    · exact absurd shake later.2
  | close new slot =>
    subst slot
    exact ⟨fun _ => new, by simp, by simp, size, fun _ _ => rfl⟩

theorem Moves.wired {h h' : Harbor} (moves : Moves grows h h') (wired : Wired h) : Wired h' := by
  induction moves with
  | refl => exact wired
  | tail _ move ih => exact fun id => (move.slots id).wired (ih id)

theorem Moves.log {h h' : Harbor} (moves : Moves grows h h') : h.log <+: h'.log := by
  induction moves with
  | refl => exact List.prefix_refl _
  | tail _ move ih => exact ih.trans move.log

theorem Moves.own {h h' : Harbor} (moves : Moves grows h h') : h'.id = h.id := by
  induction moves with
  | refl => rfl
  | tail _ move ih => exact move.own.trans ih

theorem Moves.names {h h' : Harbor} (moves : Moves grows h h')
    (clean : ∀ name, ∀ m ∈ waiting h name, Unaddressed m) :
    ∀ name, ∀ m ∈ waiting h' name, Unaddressed m := by
  induction moves with
  | refl => exact clean
  | tail _ move ih =>
    intro name m inside
    rcases move.names name m inside with before | new
    · exact ih name m before
    · exact new

structure Logged (h h' : Harbor) : Prop where
  log : h.log <+: h'.log
  own : h'.id = h.id
  slots : h'.s = h.s
  map : h'.map = h.map

theorem Logged.refl (h : Harbor) : Logged h h := ⟨List.prefix_refl _, rfl, rfl, rfl⟩

theorem Logged.names {h h' : Harbor} (logged : Logged h h') (name : Name) (m : HarborMsg)
    (inside : m ∈ waiting h' name) : m ∈ waiting h name ∨ Unaddressed m := by
  rw [waiting, logged.map] at inside
  exact .inl inside

theorem Logged.moves {h h' : Harbor} (logged : Logged h h') : Moves grows h h' :=
  .single ⟨logged.log, logged.own, logged.names, fun id => .same (by rw [logged.slots])⟩

theorem did_moves (h : Harbor) (effect : Effect) : Moves grows h (h.did effect) :=
  Logged.moves ⟨List.prefix_append _ _, rfl, rfl, rfl⟩

theorem setSlave_move (h h' : Harbor) (id : Nat) (slave : Slave) (logged : Logged h h')
    (slot : SlotMove h'.log (grows id) (h.s id) slave) :
    Moves grows h (h'.setSlave id slave) := by
  refine .single ⟨logged.log, logged.own, logged.names, ?_⟩
  intro other
  by_cases same : other = id
  · subst same
    rw [setSlave_self]
    exact slot
  · rw [setSlave_other _ _ _ _ same, logged.slots]
    exact .same rfl

theorem closeHarbor_moves (h : Harbor) (id : Nat) (linked : (h.s id).fd ≠ 0) :
    Moves grows h (closeHarbor h id) := by
  rw [closeHarbor_eq]
  refine setSlave_move h _ id _ ⟨?_, rfl, rfl, rfl⟩ (.close linked rfl)
  rw [List.append_assoc]
  exact List.prefix_append _ _

theorem forwardLocalMessage_moves (h h' : Harbor) (msg : List UInt8)
    (forwarded : forwardLocalMessage h msg = some h') : Moves grows h h' ∧ h'.s = h.s := by
  unfold forwardLocalMessage at forwarded
  split_ifs at forwarded with short
  simp only at forwarded
  split_ifs at forwarded <;> simp only [Option.some.injEq] at forwarded <;> subst forwarded
  · exact ⟨did_moves _ _, rfl⟩
  · exact ⟨(did_moves _ _).trans ((did_moves _ _).trans (did_moves _ _)), rfl⟩

theorem flush_moves (h h' h'' : Harbor) (id : Nat) (fd : Int) (linked : fd ≠ 0)
    (early : (h.s id).status = .wait ∨ (h.s id).status = .handshake ∧ (h.s id).fd = fd)
    (logged : Logged h h')
    (opened : dispatchQueue (h'.setSlave id { h.s id with fd := fd, status := .header }) id =
      some h'') : Moves grows h h'' := by
  rw [dispatchQueue_eq _ _ (by rw [setSlave_self]; exact linked), setSlave_self] at opened
  simp only [Option.some.injEq] at opened
  subst opened
  have start : Moves grows h (Harbor.setSlave
      { h' with log := h'.log ++ (queued (h.s id).queue).map (written fd) } id
      { h.s id with fd := fd, status := .header, queue := none }) := by
    refine setSlave_move h _ id _
      ⟨logged.log.trans (List.prefix_append _ _), logged.own, logged.slots, logged.map⟩ ?_
    refine .flush fd linked early rfl ?_
    intro m inside
    exact List.mem_append_right _ (List.mem_map_of_mem inside)
  convert start using 1
  simp [Harbor.setSlave]

theorem readHeader_moves (h h' : Harbor) (id : Nat) (buffer : List UInt8)
    (left : Option (List UInt8)) (wired : Wired h) (status : (h.s id).status = .header)
    (turn : readHeader h id buffer = (h', left)) : Moves grows h h' := by
  have four := (wired id).size
  have linked := (wired id).linked (by simp [status])
  have copied : (memcpy (h.s id).size (h.s id).read (buffer.take (4 - (h.s id).read))).length = 4 ∨
      buffer.length < 4 - (h.s id).read := by
    by_cases short : buffer.length < 4 - (h.s id).read
    · exact .inr short
    · left
      simp only [memcpy, List.length_append, List.length_take, List.length_drop, four]
      omega
  unfold readHeader at turn
  simp only at turn
  split_ifs at turn with short long
  · simp only [Prod.mk.injEq] at turn
    rw [← turn.1]
    refine setSlave_move h h id _ (.refl h)
      (.read (.inl status) (.inl status) rfl rfl ?_)
    intro _
    rw [length_memcpy _ _ _ (by omega), four]
  · simp only [Prod.mk.injEq] at turn
    rw [← turn.1]
    have resized : Moves grows h (h.setSlave id
        { h.s id with size := memcpy (h.s id).size (h.s id).read (buffer.take (4 - (h.s id).read)) }) :=
      setSlave_move h h id _ (.refl h)
        (.read (.inl status) (.inl status) rfl rfl fun _ => copied.resolve_right short)
    refine resized.trans ((did_moves _ _).trans (closeHarbor_moves _ _ ?_))
    change ((h.setSlave id _).s id).fd ≠ 0
    rw [setSlave_self]
    exact linked
  all_goals
    simp only [Prod.mk.injEq] at turn
    rw [← turn.1]
    exact setSlave_move h h id _ (.refl h)
      (.read (.inl status) (.inr rfl) rfl rfl fun _ => copied.resolve_right short)

theorem readContent_moves (h h' : Harbor) (id : Nat) (buffer : List UInt8)
    (left : Option (List UInt8)) (status : (h.s id).status = .content)
    (turn : readContent h id buffer = some (h', left)) : Moves grows h h' := by
  unfold readContent at turn
  simp only at turn
  by_cases short : buffer.length < (h.s id).length - (h.s id).read
  · simp only [short, if_true, Option.some.injEq, Prod.mk.injEq] at turn
    rw [← turn.1]
    exact setSlave_move h h id _ (.refl h)
      (.read (.inr status) (.inr status) rfl rfl fun four => four)
  · simp only [short, if_false, Option.map_eq_some_iff, Prod.mk.injEq] at turn
    obtain ⟨middle, forwarded, rfl, _⟩ := turn
    obtain ⟨moves, slots⟩ := forwardLocalMessage_moves h middle _ forwarded
    refine moves.trans (setSlave_move middle middle id _ (.refl middle) ?_)
    rw [slots]
    exact .read (.inr status) (.inl rfl) rfl rfl fun four => four

theorem readMessage_moves (h h' : Harbor) (id : Nat) (buffer : List UInt8)
    (left : Option (List UInt8)) (wired : Wired h) (status : (h.s id).status = .header)
    (turn : readMessage h id buffer = some (h', left)) : Moves grows h h' := by
  unfold readMessage at turn
  cases header : readHeader h id buffer with
  | mk middle rest =>
    have first : Moves grows h middle := readHeader_moves h middle id buffer rest wired status header
    rw [header] at turn
    cases rest with
    | none =>
      simp only [Option.some.injEq, Prod.mk.injEq] at turn
      rwa [turn.1] at first
    | some more =>
      refine first.trans (readContent_moves middle h' id more left ?_ turn)
      unfold readHeader at header
      simp only at header
      split_ifs at header <;> simp only [Prod.mk.injEq, reduceCtorEq, and_false] at header
      rw [← header.1, setSlave_self]

theorem readHandshake_moves (h h' : Harbor) (id : Nat) (fd : Int) (buffer : List UInt8)
    (left : Option (List UInt8)) (wired : Wired h) (status : (h.s id).status = .handshake)
    (turn : readHandshake h id fd buffer = some (h', left)) : Moves grows h h' := by
  have linked := (wired id).linked (by simp [status])
  unfold readHandshake at turn
  cases buffer with
  | nil => contradiction
  | cons remoteId rest =>
    simp only at turn
    by_cases wrong : remoteId.toNat ≠ id
    · rw [if_pos wrong] at turn
      simp only [Option.some.injEq, Prod.mk.injEq] at turn
      rw [← turn.1]
      exact (did_moves _ _).trans (closeHarbor_moves _ _ linked)
    · rw [if_neg wrong] at turn
      obtain ⟨middle, opened, more⟩ := Option.bind_eq_some_iff.mp turn
      have first : Moves grows h middle :=
        flush_moves h h middle id (h.s id).fd linked (.inr ⟨status, rfl⟩) (.refl h) opened
      split_ifs at more
      · simp only [Option.some.injEq, Prod.mk.injEq] at more
        rwa [more.1] at first
      · refine first.trans (readMessage_moves middle h' id rest left (first.wired wired) ?_ more)
        rw [dispatchQueue_eq _ _ (by rw [setSlave_self]; exact linked)] at opened
        simp only [Option.some.injEq] at opened
        rw [← opened, setSlave_self, setSlave_self]

theorem socketTurn_moves (h h' : Harbor) (id : Nat) (fd : Int) (buffer : List UInt8)
    (left : Option (List UInt8)) (wired : Wired h)
    (turn : socketTurn h id fd buffer = some (h', left)) : Moves grows h h' := by
  unfold socketTurn at turn
  cases status : (h.s id).status with
  | handshake =>
    rw [status] at turn
    exact readHandshake_moves h h' id fd buffer left wired status turn
  | header =>
    rw [status] at turn
    exact readMessage_moves h h' id buffer left wired status turn
  | content =>
    rw [status] at turn
    exact readContent_moves h h' id buffer left status turn
  | wait | down =>
    rw [status] at turn
    simp only [Option.some.injEq, Prod.mk.injEq] at turn
    rw [turn.1]

theorem socketLoop_moves (turns : Nat) (h h' : Harbor) (id : Nat) (fd : Int) (buffer : List UInt8)
    (wired : Wired h) (done : socketLoop turns h id fd buffer = some h') : Moves grows h h' := by
  induction turns generalizing h buffer with
  | zero => contradiction
  | succ turns ih =>
    unfold socketLoop at done
    cases turn : socketTurn h id fd buffer with
    | none =>
      rw [turn] at done
      contradiction
    | some pair =>
      obtain ⟨middle, left⟩ := pair
      have first : Moves grows h middle := socketTurn_moves h middle id fd buffer left wired turn
      rw [turn] at done
      cases left with
      | none =>
        simp only [Option.some.injEq] at done
        rwa [done] at first
      | some left => exact first.trans (ih middle left (first.wired wired) done)

theorem pushSocketData_moves (h h' : Harbor) (fd : Int) (message : Buffer) (wired : Wired h)
    (done : pushSocketData h fd message = some h') : Moves grows h h' := by
  unfold pushSocketData at done
  simp only at done
  split_ifs at done
  · simp only [Option.some.injEq] at done
    rw [← done]
    exact (did_moves _ _).trans (did_moves _ _)
  · exact socketLoop_moves _ h h' _ fd _ wired done

theorem openLink_moves (h h' : Harbor) (fd : Int) (id : Nat) (connect : Bool) (linked : fd ≠ 0)
    (early : (h.s id).status = .wait) (opened : openLink h fd id connect = some h') :
    Moves grows h h' := by
  unfold openLink at opened
  simp only at opened
  split_ifs at opened with connecting
  · simp only [Option.some.injEq] at opened
    rw [← opened]
    have start : Moves grows h (Harbor.setSlave
        { h with log := h.log ++ [.start fd, .write fd [h.id.toUInt8] none] } id
        { h.s id with fd := fd, status := .handshake }) :=
      setSlave_move h _ id _ ⟨List.prefix_append _ _, rfl, rfl, rfl⟩ (.connect fd linked early rfl)
    convert start using 1
    simp [handshake, Harbor.did, Harbor.setSlave]
  · refine flush_moves h { h with log := h.log ++ [.start fd, .write fd [h.id.toUInt8] none] } h' id
      fd linked (.inl early) ⟨List.prefix_append _ _, rfl, rfl, rfl⟩ ?_
    rw [← opened]
    congr 1
    simp [handshake, Harbor.did, Harbor.setSlave]

theorem remoteSendHandle_moves (h : Harbor) (source destination : UInt32) (type : UInt8)
    (session : UInt32) (msg : Buffer) (wired : Wired h)
    (remote : ∀ k : UInt32, k ≠ h.id → grows k.toNat) :
    Moves grows h (remoteSendHandle h source destination type session msg).1 := by
  unfold remoteSendHandle
  simp only
  split_ifs with localMessage waiting down
  · exact did_moves _ _
  · exact (did_moves _ _).trans (did_moves _ _)
  · refine setSlave_move h h _ _ (.refl h) ?_
    refine .grow
      [{ header :=
          { source := source
            destination := type.toUInt32 <<< 24 ||| destination &&& handleMask
            session := session }
         buffer := msg }] (fun _ => remote _ localMessage) _ ?_ rfl ?_
    · rcases waiting with free | shake
      · left
        by_contra opened
        exact (wired _).linked opened free
      · exact .inr shake
    · rw [queued_some, contents_pushQueueMsg, queued_getD]
  · exact did_moves _ _

theorem remoteSendName_moves (h : Harbor) (source : UInt32) (name : Name) (type : UInt8)
    (session : UInt32) (msg : Buffer) (wired : Wired h)
    (remote : ∀ k : UInt32, k ≠ h.id → grows k.toNat) :
    Moves grows h (remoteSendName h source name type session msg).1 := by
  unfold remoteSendName
  simp only
  split_ifs with fresh
  · refine .single ⟨List.prefix_append _ _, rfl, ?_, fun _ => .same rfl⟩
    intro other m inside
    rcases waiting_hashWrite h _ name other _ _ m inside with before | ⟨same, pushed⟩
    · rw [waiting_hashNode] at before
      exact .inl before
    · rw [queued_some, contents_pushQueueMsg, queued_getD, hashSearch_hashNode,
        ← hashSearch_congr _ _ _ same] at pushed
      rcases List.mem_append.mp pushed with before | new
      · exact .inl before
      · rw [List.mem_singleton.mp new]
        exact .inr (type_unaddressed type)
  · have named : Moves grows h { h with map := hashNode h.map name } := by
      refine .single ⟨List.prefix_refl _, rfl, ?_, fun _ => .same rfl⟩
      intro other m inside
      rw [waiting_hashNode] at inside
      exact .inl inside
    exact named.trans (remoteSendHandle_moves _ _ _ _ _ _ wired remote)

def HarborMsg.complete (m : HarborMsg) (handle : UInt32) : HarborMsg :=
  { m with
    header := { m.header with destination := m.header.destination ||| handle &&& handleMask } }

inductive Bound (h h' : Harbor) (handle : UInt32) (messages : List HarborMsg) : Prop where
  | dropped (free : (h.s (handle >>> 24).toNat).fd = 0)
      (down : (h.s (handle >>> 24).toNat).status = .down)
      (log : ∃ text, h'.log = h.log ++ .error text :: messages.map freed) (slots : h'.s = h.s)
  | moved (free : (h.s (handle >>> 24).toNat).fd = 0) (queue : Option Queue)
      (contents : queued queue = queued (h.s (handle >>> 24).toNat).queue ++ messages)
      (log : h'.log = h.log)
      (slots : h'.s = Function.update h.s (handle >>> 24).toNat
        { h.s (handle >>> 24).toNat with queue := queue })
  | sent (linked : (h.s (handle >>> 24).toNat).fd ≠ 0)
      (log : h'.log = h.log ++ messages.map fun m =>
        written (h.s (handle >>> 24).toNat).fd (m.complete handle))
      (slots : h'.s = h.s)

theorem dispatchNameQueue_bound (h h' : Harbor) (key : Name) (handle : UInt32) (queue : Queue)
    (left : Option Queue) (done : dispatchNameQueue h key handle queue = some (h', left)) :
    handle >>> 24 ≠ 0 ∧ h'.id = h.id ∧ h'.map = h.map ∧
      Bound h (releaseQueue h' left) handle queue.contents := by
  unfold dispatchNameQueue at done
  simp only at done
  split_ifs at done with zero free down
  · refine ⟨fun same => zero (by simp [same]), ?_⟩
    simp only [Option.some.injEq, Prod.mk.injEq] at done
    obtain ⟨rfl, rfl⟩ := done
    refine ⟨rfl, rfl, .dropped free down ?_ ?_⟩
    · rw [releaseQueue_eq]
      exact ⟨_, List.append_assoc _ _ _⟩
    · rw [releaseQueue_eq]
      rfl
  · refine ⟨fun same => zero (by simp [same]), ?_⟩
    cases target : (h.s (handle >>> 24).toNat).queue with
    | none =>
      simp only [target, Option.some.injEq, Prod.mk.injEq] at done
      obtain ⟨rfl, rfl⟩ := done
      refine ⟨rfl, rfl, .moved free (some queue) (by rw [target]; rfl) ?_ ?_⟩
      · simp [releaseQueue_eq, Harbor.setSlave]
      · simp [releaseQueue_eq, Harbor.setSlave]
    | some old =>
      simp only [target, Option.some.injEq, Prod.mk.injEq] at done
      obtain ⟨rfl, rfl⟩ := done
      refine ⟨rfl, rfl, .moved free (some (queue.drain pushQueueMsg old).1) ?_ ?_ ?_⟩
      · rw [queued_some, CircularBuffer.drain_fst, foldl_pushQueueMsg, target, queued_some]
      · simp [releaseQueue_eq, Harbor.setSlave, CircularBuffer.contents_drain]
      · simp [releaseQueue_eq, Harbor.setSlave]
  · refine ⟨fun same => zero (by simp [same]), ?_⟩
    simp only [Option.some.injEq, Prod.mk.injEq] at done
    obtain ⟨rfl, rfl⟩ := done
    have sent : (queue.drain (fun h' m => sendRemote h' (h.s (handle >>> 24).toNat).fd
        (m.complete handle)) h).1 =
        { h with log := h.log ++ queue.contents.map fun m =>
          written (h.s (handle >>> 24).toNat).fd (m.complete handle) } := by
      rw [CircularBuffer.drain_fst]
      exact foldl_did _ h fun m => written (h.s (handle >>> 24).toNat).fd (m.complete handle)
    have same : queue.drain (fun h' m => sendRemote h' (h.s (handle >>> 24).toNat).fd
        { m with header := { m.header with
          destination := m.header.destination ||| handle &&& handleMask } }) h =
        queue.drain (fun h' m => sendRemote h' (h.s (handle >>> 24).toNat).fd (m.complete handle)) h :=
      rfl
    rw [same, sent]
    refine ⟨rfl, rfl, .sent free ?_ ?_⟩
    · simp [releaseQueue_eq, CircularBuffer.contents_drain]
    · simp [releaseQueue_eq]

theorem updateName_cases (h h' : Harbor) (name : Name) (handle : UInt32)
    (done : updateName h name handle = some h') :
    h'.id = h.id ∧ (∀ other, ∀ m ∈ waiting h' other, m ∈ waiting h other) ∧
      ((waiting h name = [] ∧ h'.log = h.log ∧ h'.s = h.s) ∨
        (handle >>> 24 ≠ 0 ∧ Bound h h' handle (waiting h name))) := by
  unfold updateName at done
  simp only [hashSearch_hashNode] at done
  cases queue : (hashSearch h.map name).bind (·.queue) with
  | none =>
    simp only [queue, Option.some.injEq] at done
    subst done
    refine ⟨rfl, ?_, .inl ⟨by rw [waiting, queue]; rfl, rfl, rfl⟩⟩
    intro other m inside
    rcases waiting_hashWrite h _ name other _ _ m inside with before | ⟨_, none⟩
    · rwa [waiting_hashNode] at before
    · contradiction
  | some queue' =>
    simp only [queue, Option.map_eq_some_iff, Prod.exists] at done
    obtain ⟨middle, left, dispatched, rfl⟩ := done
    obtain ⟨remote, own, map, bound⟩ :=
      dispatchNameQueue_bound _ middle name handle queue' left dispatched
    have messages : waiting h name = queue'.contents := by rw [waiting, queue]; rfl
    refine ⟨by rw [releaseQueue_eq]; exact own, ?_, .inr ⟨remote, ?_⟩⟩
    · intro other m inside
      rcases waiting_hashWrite _ _ name other _ _ m inside with before | ⟨_, none⟩
      · simp only [waiting, releaseQueue_eq, map] at before
        rcases waiting_hashWrite h _ name other _ _ m before with earlier | ⟨same, still⟩
        · rwa [waiting_hashNode] at earlier
        · rw [waiting, hashSearch_congr _ _ _ same, queue]
          exact still
      · contradiction
    · rw [messages]
      cases bound with
      | dropped free down log slots => exact .dropped free down log slots
      | moved free queue contents log slots => exact .moved free queue contents log slots
      | sent linked log slots => exact .sent linked log slots

theorem Bound.moves {h h' : Harbor} {handle : UInt32} {messages : List HarborMsg}
    (bound : Bound h h' handle messages) (own : h'.id = h.id) (wired : Wired h)
    (names : ∀ other, ∀ m ∈ waiting h' other, m ∈ waiting h other)
    (allowed : messages ≠ [] → grows (handle >>> 24).toNat) : Moves grows h h' := by
  have kept : ∀ other, ∀ m ∈ waiting h' other, m ∈ waiting h other ∨ Unaddressed m :=
    fun other m inside => .inl (names other m inside)
  cases bound with
  | dropped _ _ log slots =>
    obtain ⟨text, log⟩ := log
    exact .single ⟨by rw [log]; exact List.prefix_append _ _, own, kept,
      fun id => .same (by rw [slots])⟩
  | sent _ log slots =>
    exact .single ⟨by rw [log]; exact List.prefix_append _ _, own, kept,
      fun id => .same (by rw [slots])⟩
  | moved free queue contents log slots =>
    refine .single ⟨by rw [log], own, kept, ?_⟩
    intro id
    rw [slots]
    by_cases same : id = (handle >>> 24).toNat
    · rw [same, Function.update_self]
      refine .grow messages allowed queue (.inl ?_) rfl contents
      by_contra opened
      exact (wired _).linked opened free
    · rw [Function.update_of_ne same]
      exact .same rfl

theorem updateName_moves (h h' : Harbor) (name : Name) (handle : UInt32) (wired : Wired h)
    (allowed : waiting h name ≠ [] → grows (handle >>> 24).toNat)
    (done : updateName h name handle = some h') : Moves grows h h' := by
  obtain ⟨own, names, ⟨_, log, slots⟩ | ⟨_, bound⟩⟩ := updateName_cases h h' name handle done
  · exact .single ⟨by rw [log], own, fun other m inside => .inl (names other m inside),
      fun id => .same (by rw [slots])⟩
  · exact bound.moves own wired names allowed

def bindsName (msg : List UInt8) : Option Name :=
  if msg.head? = some 0x4e ∧ ¬((msg.drop 2).length = 0 ∨ globalNameLength ≤ (msg.drop 2).length) then
    some (toName (msg.drop 2))
  else none

theorem harborCommand_binds (h : Harbor) (msg : List UInt8) (source : UInt32) (name : Name)
    (binds : bindsName msg = some name) : harborCommand h msg source = updateName h name source := by
  unfold bindsName at binds
  split_ifs at binds with good
  simp only [Option.some.injEq] at binds
  unfold harborCommand
  simp only [good.1, good.2, if_false, binds]

theorem harborCommand_moves (h h' : Harbor) (msg : List UInt8) (source : UInt32) (wired : Wired h)
    (allowed : ∀ name, bindsName msg = some name → waiting h name ≠ [] →
      grows (source >>> 24).toNat)
    (done : harborCommand h msg source = some h') : Moves grows h h' := by
  unfold harborCommand at done
  simp only at done
  split at done
  · rename_i letter
    split_ifs at done with bad
    · simp only [Option.some.injEq] at done
      exact done ▸ did_moves _ _
    · have binds : bindsName msg = some (toName (msg.drop 2)) := by
        rw [bindsName, if_pos ⟨letter, bad⟩]
      exact updateName_moves h h' _ source wired (allowed _ binds) done
  · split_ifs at done with linking _ bad open_
    · simp only [Option.some.injEq] at done
      exact done ▸ did_moves _ _
    · simp only [Option.some.injEq] at done
      exact done ▸ did_moves _ _
    · refine openLink_moves h h' _ _ _ (fun zero => bad (.inl zero)) ?_ done
      by_contra linked
      exact (wired _).linked linked (not_not.mp open_)
    · simp only [Option.some.injEq] at done
      exact done ▸ did_moves _ _
  · simp only [Option.some.injEq] at done
    exact done ▸ did_moves _ _

def Effect.ends (block : Nat) : Effect → Bool
  | .free buffer => buffer = block
  | .send _ _ _ _ _ buffer => buffer = some block
  | .write _ _ _ => false
  | .start _ => false
  | .close _ => false
  | .error _ => false

structure Effect.Silent (effect : Effect) : Prop where
  ends : ∀ block, effect.ends block = false
  writes : ∀ fd bytes block, effect ≠ .write fd bytes block

theorem misread_cases (h h' : Harbor) (name : Name) (done : misread h name = some h') :
    h' = h ∨ ∃ effect : Effect, effect.Silent ∧ h' = h.did effect := by
  have error (text : String) : (Effect.error text).Silent := ⟨fun _ => rfl, by simp⟩
  unfold misread at done
  simp only at done
  split_ifs at done with data connected closed known
  · exact .inl (Option.some.inj done).symm
  · exact .inr ⟨_, ⟨fun _ => rfl, by simp⟩, (Option.some.inj done).symm⟩
  · exact .inr ⟨_, error _, (Option.some.inj done).symm⟩
  · exact .inr ⟨_, error _, (Option.some.inj done).symm⟩

theorem mainloop_moves (h h' : Harbor) (event : Event) (wired : Wired h)
    (remote : ∀ k : UInt32, k ≠ h.id → grows k.toNat)
    (allowed : ∀ msg source name, event = .command msg source → bindsName msg = some name →
      waiting h name ≠ [] → grows (source >>> 24).toNat)
    (done : mainloop h event = some h') : Moves grows h h' := by
  have counted : Moves grows h { h with buffers := h.buffers + 1 } :=
    Logged.moves ⟨List.prefix_refl _, rfl, rfl, rfl⟩
  cases event with
  | data fd bytes =>
    simp only [mainloop, Option.map_eq_some_iff] at done
    obtain ⟨middle, pushed, rfl⟩ := done
    have read : Moves grows { h with buffers := h.buffers + 1 } middle :=
      pushSocketData_moves { h with buffers := h.buffers + 1 } middle fd _ wired pushed
    exact counted.trans (read.trans (did_moves _ _))
  | closed fd =>
    simp only [mainloop] at done
    split_ifs at done <;> simp only [Option.some.injEq] at done <;> subst done <;>
      exact did_moves _ _
  | connected fd =>
    simp only [mainloop, Option.some.injEq] at done
    exact done ▸ .refl
  | socket type =>
    simp only [mainloop, Option.some.injEq] at done
    exact done ▸ did_moves _ _
  | command msg source =>
    exact harborCommand_moves h h' msg source wired (fun name => allowed msg source name rfl) done
  | remote source handle name type session message =>
    simp only [mainloop, Option.some.injEq] at done
    subst done
    refine counted.trans ?_
    have sent : Moves grows { h with buffers := h.buffers + 1 }
        (if handle = 0 then
          remoteSendName { h with buffers := h.buffers + 1 } source name type session
            { id := h.buffers, bytes := message }
        else
          remoteSendHandle { h with buffers := h.buffers + 1 } source handle type session
            { id := h.buffers, bytes := message }).1 := by
      split_ifs
      · exact remoteSendName_moves _ _ _ _ _ _ wired remote
      · exact remoteSendHandle_moves _ _ _ _ _ _ wired remote
    refine sent.trans ?_
    generalize (if handle = 0 then _ else _ : Harbor × Bool) = result
    cases result.2
    · exact did_moves _ _
    · exact .refl
  | misread name =>
    refine counted.trans ?_
    obtain rfl | ⟨effect, _, rfl⟩ := misread_cases _ h' name done
    · exact .refl
    · exact did_moves _ _

theorem mainloop_moved (h h' : Harbor) (event : Event) (wired : Wired h)
    (done : mainloop h event = some h') : Moves (fun _ => True) h h' :=
  mainloop_moves h h' event wired (fun _ _ => trivial) (fun _ _ _ _ _ _ => trivial) done

theorem create_wired (ctx : List Effect → UInt32 → Bool) (id slave : UInt32) :
    Wired (harborCreate ctx id slave) := by
  intro k
  constructor <;> simp [harborCreate]

theorem reached_wired {allowed : Harbor → Event → Prop} {ctx : List Effect → UInt32 → Bool}
    {id slave : UInt32} {h : Harbor}
    (reached : Transition.Path mainloop allowed (harborCreate ctx id slave) h) : Wired h := by
  refine reached.invariant Wired ?_ (create_wired ctx id slave)
  intro h event h' wired _ done
  exact (mainloop_moved h h' event wired done).wired wired

end Pskynet.Harbor
