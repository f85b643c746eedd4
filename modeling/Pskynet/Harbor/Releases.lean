import Pskynet.Harbor.Blocks
import Pskynet.Shared.Transition

set_option autoImplicit false

namespace Pskynet.Harbor

open Server

def Balanced (h : Harbor) : Prop := ∀ block, total h block = if block < h.buffers then 1 else 0

def accepted (h : Harbor) (msg : List UInt8) : Option Nat :=
  let (fd, id) := scanTwo (cString (msg.drop 2))
  if msg.head? = some 0x41 ∧ 2 ≤ msg.length ∧ ¬(fd = 0 ∨ id ≤ 0 ∨ remoteMax ≤ id) ∧
      (h.s id.toNat).fd = 0 then some id.toNat
  else none

def lost (h : Harbor) : Event → List HarborMsg
  | .data fd bytes => if harborId h fd = 0 then [] else flushed h (harborId h fd) bytes
  | .command msg source =>
      match bindsName msg with
      | some name => sentOn h name source
      | none => (accepted h msg).elim [] fun id => queued (h.s id).queue
  | .closed _ => []
  | .connected _ => []
  | .socket _ => []
  | .remote _ _ _ _ _ _ => []
  | .misread _ => []

def gained (h : Harbor) : Event → List Nat
  | .data fd _ => if harborId h fd = 0 then [h.buffers, h.buffers] else [h.buffers]
  | .remote _ _ _ _ _ _ => [h.buffers]
  | .command _ _ => []
  | .closed _ => []
  | .connected _ => []
  | .socket _ => []
  | .misread _ => []

-- The data is of a link that is known, a link that begins to be used or a name that is bound
-- to a link has no messages that wait for it, and no remote message has the type `PTYPE_SOCKET`.
structure Releases (h : Harbor) (event : Event) : Prop where
  kept : lost h event = []
  known : ∀ fd bytes, event = .data fd bytes → harborId h fd ≠ 0
  read : ∀ name, event ≠ .misread name

variable {h h' : Harbor}

theorem did_total (h : Harbor) (effect : Effect) (block : Nat) :
    total (h.did effect) block = total h block + if effect.ends block then 1 else 0 := by
  have one : ended [effect] block = if effect.ends block then 1 else 0 := List.countP_singleton
  unfold total Harbor.did
  simp only
  generalize inSlots h.s block = slots
  generalize inNames h.map block = names
  rw [ended_append, one]
  omega

theorem free_total (h : Harbor) (buffer block : Nat) :
    total (h.did (.free buffer)) block = total h block + [buffer].count block := by
  rw [did_total, List.count_singleton]
  simp [Effect.ends]

theorem did_total_same (h : Harbor) (effect : Effect)
    (keeps : ∀ block, effect.ends block = false) (block : Nat) :
    total (h.did effect) block = total h block := by
  rw [did_total, keeps, if_neg Bool.false_ne_true, Nat.add_zero]

theorem harborId_lt (h : Harbor) (fd : Int) : harborId h fd < remoteMax := by
  unfold harborId
  cases found : (List.range' 1 (remoteMax - 1)).find? fun i => (h.s i).fd = fd with
  | none => decide
  | some id =>
      obtain ⟨-, high⟩ := List.mem_range'_1.mp (List.mem_of_find?_eq_some found)
      exact high

theorem data_total (fd : Int) (bytes : List UInt8) (done : mainloop h (.data fd bytes) = some h')
    (block : Nat) :
    total h' block + (blocks (lost h (.data fd bytes))).count block =
      total h block + (gained h (.data fd bytes)).count block ∧
    h'.map = h.map ∧ h'.buffers = h.buffers + 1 := by
  obtain ⟨middle, pushed, rfl⟩ := Option.map_eq_some_iff.mp done
  have brought : total { h with buffers := h.buffers + 1 } block = total h block := rfl
  have same : harborId { h with buffers := h.buffers + 1 } fd = harborId h fd := rfl
  unfold pushSocketData at pushed
  simp only [same] at pushed
  rw [free_total]
  by_cases unknown : harborId h fd = 0
  · rw [if_pos unknown] at pushed
    obtain rfl := Option.some.inj pushed
    have nothing : lost h (.data fd bytes) = [] := if_pos unknown
    have twice : gained h (.data fd bytes) = [h.buffers] ++ [h.buffers] := if_pos unknown
    refine ⟨?_, rfl, rfl⟩
    rw [did_total_same _ _ fun _ => rfl, free_total, brought, nothing, twice, List.count_append]
    have none_ : (blocks []).count block = 0 := rfl
    rw [none_, Nat.add_zero, Nat.add_assoc]
  · rw [if_neg unknown] at pushed
    have settles := socketLoop_settles _ _ (harborId_lt h fd) fd bytes pushed
    have flushes : lost h (.data fd bytes) = flushed h (harborId h fd) bytes := if_neg unknown
    have once : gained h (.data fd bytes) = [h.buffers] := if_neg unknown
    have counts := settles.count block
    have slot : flushed { h with buffers := h.buffers + 1 } (harborId h fd) bytes =
        flushed h (harborId h fd) bytes := rfl
    rw [brought, slot] at counts
    refine ⟨?_, settles.map, settles.buffers⟩
    rw [flushes, once]
    show _ + [h.buffers].count block + _ = _
    omega

theorem command_total (distinct : Distinct h.map) (msg : List UInt8) (source : UInt32)
    (done : mainloop h (.command msg source) = some h') (block : Nat) :
    total h' block + (blocks (lost h (.command msg source))).count block = total h block ∧
      Distinct h'.map ∧ h'.buffers = h.buffers := by
  rw [mainloop] at done
  cases binds : bindsName msg with
  | some name =>
      have sent : lost h (.command msg source) = sentOn h name source := by
        rw [lost, binds]
      rw [harborCommand_binds h msg source name binds] at done
      rw [sent]
      exact ⟨updateName_total name source distinct done block,
        (updateName_names name source distinct done).1, updateName_buffers h h' name source done⟩
  | none =>
      have loses : lost h (.command msg source) =
          (accepted h msg).elim [] fun id => queued (h.s id).queue := by
        rw [lost, binds]
      have refuses (text : String) (refused : accepted h msg = none)
          (here : some (h.did (.error text)) = some h') :
          Settles (lost h (.command msg source)) h h' := by
        obtain rfl := Option.some.inj here
        rw [loses, refused]
        exact did_settles h _ fun _ => rfl
      have settled (settles : Settles (lost h (.command msg source)) h h') :
          total h' block + (blocks (lost h (.command msg source))).count block = total h block ∧
          Distinct h'.map ∧ h'.buffers = h.buffers := by
        refine ⟨settles.count block, ?_, settles.buffers⟩
        rw [settles.map]
        exact distinct
      refine settled ?_
      unfold harborCommand at done
      simp only at done
      split at done
      · rename_i letter
        split_ifs at done with bad
        · refine refuses _ (if_neg fun all => ?_) done
          rw [letter] at all
          exact absurd all.1 (by decide)
        · rw [bindsName, if_pos ⟨letter, bad⟩] at binds
          contradiction
      · rename_i command _ letter
        split_ifs at done with linking short bad taken
        · exact refuses _ (if_neg fun all => all.2.2.1 bad) done
        · exact refuses _ (if_neg fun all => taken all.2.2.2) done
        · have inside : (scanTwo (cString (msg.drop 2))).2.toNat < remoteMax := by omega
          have opened := openLink_settles _ _ inside _ done
          by_cases connect : command = 0x53
          · have refused : accepted h msg = none := if_neg fun all => by
              rw [letter, connect] at all
              exact absurd all.1 (by decide)
            rw [loses, refused]
            rwa [if_pos (decide_eq_true connect)] at opened
          · have accepts : accepted h msg = some (scanTwo (cString (msg.drop 2))).2.toNat := by
              refine if_pos ⟨?_, by omega, bad, not_not.mp taken⟩
              rw [letter, linking.resolve_left connect]
            rw [loses, accepts]
            rwa [if_neg (by simpa using connect)] at opened
        · refine refuses _ (if_neg fun all => ?_) done
          rw [letter] at all
          exact linking (.inr (Option.some.inj all.1))
      · rename_i letter
        refine refuses _ (if_neg fun all => ?_) done
        rw [letter] at all
        exact absurd all.1 (by decide)

theorem inQueue_push (queue : Option Queue) (m : HarborMsg) (block : Nat) :
    inQueue (some (pushQueueMsg (queue.getD newQueue) m)) block =
      inQueue queue block + [m.buffer.id].count block := by
  unfold inQueue
  rw [queued_some, contents_pushQueueMsg, queued_getD, blocks, List.map_append, List.count_append]
  rfl

theorem released_kept (h : Harbor) (block : Nat) : released (h, true) block = h := rfl

theorem released_freed (h : Harbor) (block : Nat) :
    released (h, false) block = h.did (.free block) := rfl

theorem remoteSendHandle_total (h : Harbor) (source destination : UInt32) (type : UInt8)
    (session : UInt32) (msg : Buffer) (block : Nat) :
    total (released (remoteSendHandle h source destination type session msg) msg.id) block =
      total h block + [msg.id].count block := by
  unfold remoteSendHandle
  simp only
  split_ifs
  · rw [released_kept, did_total, List.count_singleton]
    simp [Effect.ends]
  · rw [released_freed, free_total, did_total_same _ _ fun _ => rfl, did_total_same _ _ fun _ => rfl]
  · rw [released_kept]
    have slots := inSlots_update h.s _ block (harbor_lt destination)
      { h.s (destination >>> 24).toNat with
        queue := some (pushQueueMsg ((h.s (destination >>> 24).toNat).queue.getD newQueue)
          { header :=
              { source := source
                destination := type.toUInt32 <<< 24 ||| destination &&& handleMask
                session := session }
            buffer := msg }) }
    simp only [inQueue_push] at slots
    unfold total Harbor.setSlave
    simp only
    omega
  · rw [released_freed, free_total]
    unfold sendRemote
    rw [did_total_same _ _ fun _ => rfl]

theorem remoteSendName_total (h : Harbor) (distinct : Distinct h.map) (source : UInt32) (name : Name)
    (type : UInt8) (session : UInt32) (msg : Buffer) (block : Nat) :
    total (released (remoteSendName h source name type session msg) msg.id) block =
      total h block + [msg.id].count block := by
  have node := distinct_hashNode h.map name distinct
  unfold remoteSendName
  simp only
  split_ifs
  · rw [released_kept, did_total_same _ _ fun _ => rfl]
    have names := inNames_hashWrite (hashNode h.map name) name
      (((hashSearch (hashNode h.map name) name).map (·.value)).getD 0)
      (some (pushQueueMsg (((hashSearch (hashNode h.map name) name).bind (·.queue)).getD newQueue)
        { header := { source := source, destination := type.toUInt32 <<< 24, session := session }
          buffer := msg }))
      block node (isSome_hashNode_congr h.map name name rfl)
    rw [inQueue_push, inNames_hashNode] at names
    change _ = _ + (_ + [msg.id].count block) at names
    unfold total
    simp only
    omega
  · rw [remoteSendHandle_total]
    unfold total
    simp only [inNames_hashNode]

theorem remoteSendName_map (h : Harbor) (distinct : Distinct h.map) (source : UInt32) (name : Name)
    (type : UInt8) (session : UInt32) (msg : Buffer) :
    Distinct (remoteSendName h source name type session msg).1.map ∧
      (remoteSendName h source name type session msg).1.buffers = h.buffers := by
  have node := distinct_hashNode h.map name distinct
  unfold remoteSendName
  simp only
  split_ifs
  · exact ⟨distinct_hashWrite _ _ _ _ node, rfl⟩
  · obtain ⟨map, buffers⟩ := remoteSendHandle_map { h with map := hashNode h.map name } source
      (((hashSearch (hashNode h.map name) name).map (·.value)).getD 0) type session msg
    rw [map]
    exact ⟨node, buffers⟩

theorem remote_total (distinct : Distinct h.map) (source handle : UInt32) (name : Name)
    (type : RemoteType) (session : UInt32) (message : List UInt8)
    (done : mainloop h (.remote source handle name type session message) = some h')
    (block : Nat) :
    total h' block = total h block + [h.buffers].count block ∧
      Distinct h'.map ∧ h'.buffers = h.buffers + 1 := by
  obtain rfl := Option.some.inj done
  change total (released (if handle = 0 then _ else _) h.buffers) block = _ ∧
    Distinct (released (if handle = 0 then _ else _) h.buffers).map ∧
    (released (if handle = 0 then _ else _) h.buffers).buffers = _
  rw [(released_map _ _).1, (released_map _ _).2]
  split_ifs
  · obtain ⟨map, buffers⟩ := remoteSendName_map { h with buffers := h.buffers + 1 } distinct source
      name type session { id := h.buffers, bytes := message }
    exact ⟨remoteSendName_total { h with buffers := h.buffers + 1 } distinct source name type
      session { id := h.buffers, bytes := message } block, map, buffers⟩
  · obtain ⟨map, buffers⟩ := remoteSendHandle_map { h with buffers := h.buffers + 1 } source
      handle type session { id := h.buffers, bytes := message }
    refine ⟨remoteSendHandle_total { h with buffers := h.buffers + 1 } source handle type session
      { id := h.buffers, bytes := message } block, ?_, buffers⟩
    rw [map]
    exact distinct

def Event.brings : Event → Nat
  | .data _ _ => 1
  | .remote _ _ _ _ _ _ => 1
  | .misread _ => 1
  | .closed _ => 0
  | .connected _ => 0
  | .socket _ => 0
  | .command _ _ => 0

theorem mainloop_total (distinct : Distinct h.map) (event : Event)
    (done : mainloop h event = some h') (block : Nat) :
    total h' block + (blocks (lost h event)).count block =
      total h block + (gained h event).count block ∧
    Distinct h'.map ∧ h'.buffers = h.buffers + event.brings := by
  have balances {kept : Nat} (none_ : lost h event = []) (brought : gained h event = [])
      (same : kept = total h block) :
      kept + (blocks (lost h event)).count block =
        total h block + (gained h event).count block := by
    rw [none_, brought, same]
    simp only [blocks, List.map_nil, List.count_nil]
  have quiet (effect : Effect) (none_ : lost h event = []) (brought : gained h event = [])
      (counts : event.brings = 0) (keeps : ∀ block, effect.ends block = false)
      (same : some (h.did effect) = some h') :
      total h' block + (blocks (lost h event)).count block =
        total h block + (gained h event).count block ∧
      Distinct h'.map ∧ h'.buffers = h.buffers + event.brings := by
    obtain rfl := Option.some.inj same
    rw [counts]
    exact ⟨balances none_ brought (did_total_same h effect keeps block), distinct, rfl⟩
  cases event with
  | data fd bytes =>
      obtain ⟨counts, map, buffers⟩ := data_total fd bytes done block
      rw [map]
      exact ⟨counts, distinct, buffers⟩
  | closed fd =>
      unfold mainloop reportHarborDown at done
      simp only at done
      split_ifs at done
      · exact quiet _ rfl rfl rfl (fun _ => rfl) done
      · exact quiet _ rfl rfl rfl (fun _ => rfl) done
  | connected fd =>
      obtain rfl := Option.some.inj done
      exact ⟨balances rfl rfl rfl, distinct, rfl⟩
  | socket type => exact quiet _ rfl rfl rfl (fun _ => rfl) done
  | command msg source =>
      obtain ⟨counts, names, buffers⟩ := command_total distinct msg source done block
      refine ⟨?_, names, buffers⟩
      rw [counts, gained, List.count_nil, Nat.add_zero]
  | remote source handle name type session message =>
      obtain ⟨counts, names, buffers⟩ :=
        remote_total distinct source handle name type session message done block
      refine ⟨?_, names, buffers⟩
      rw [counts, lost, gained, blocks, List.map_nil, List.count_nil, Nat.add_zero]
  | misread name =>
      obtain rfl | ⟨effect, silent, rfl⟩ := misread_cases _ h' name done
      · exact ⟨balances rfl rfl rfl, distinct, rfl⟩
      · exact ⟨balances rfl rfl (did_total_same _ effect silent.ends block), distinct, rfl⟩

def brought (buffers block : Nat) : Nat := if block < buffers then 1 else 0

theorem brought_succ (buffers block : Nat) :
    brought buffers block + [buffers].count block = brought (buffers + 1) block := by
  unfold brought
  rw [List.count_singleton]
  simp only [beq_iff_eq]
  split_ifs <;> omega

theorem gained_brought (event : Event)
    (known : ∀ fd bytes, event = .data fd bytes → harborId h fd ≠ 0)
    (read : ∀ name, event ≠ .misread name) (block : Nat) :
    brought h.buffers block + (gained h event).count block =
      brought (h.buffers + event.brings) block := by
  cases event with
  | data fd bytes =>
      have once : gained h (.data fd bytes) = [h.buffers] := if_neg (known fd bytes rfl)
      rw [once]
      exact brought_succ _ block
  | remote => exact brought_succ _ block
  | closed => rfl
  | connected => rfl
  | socket => rfl
  | command => rfl
  | misread name => exact absurd rfl (read name)

theorem balanced_step (event : Event) (done : mainloop h event = some h')
    (distinct : Distinct h.map) (balanced : Balanced h) : Balanced h' ↔ Releases h event := by
  have counts := mainloop_total distinct event done
  have buffers := (counts 0).2.2
  have before (block : Nat) : total h block = brought h.buffers block := balanced block
  constructor
  · intro after
    have after (block : Nat) : total h' block = brought (h.buffers + event.brings) block := by
      rw [← buffers]
      exact after block
    have known (fd : Int) (bytes : List UInt8) (data : event = .data fd bytes) :
        harborId h fd ≠ 0 := by
      intro unknown
      have block := (counts h.buffers).1
      have twice : gained h event = [h.buffers, h.buffers] := by
        rw [data]
        exact if_pos unknown
      have nothing : lost h event = [] := by
        rw [data]
        exact if_pos unknown
      rw [nothing, twice, after, before] at block
      simp [brought, data, Event.brings, blocks] at block
    have read (name : Name) : event ≠ .misread name := by
      rintro rfl
      have block := (counts h.buffers).1
      rw [after, before] at block
      simp [brought, Event.brings, blocks, lost, gained] at block
    refine ⟨?_, known, read⟩
    have none_ (block : Nat) : (blocks (lost h event)).count block = 0 := by
      have all := (counts block).1
      have gains := gained_brought event known read block
      rw [before, after] at all
      omega
    have empty : blocks (lost h event) = [] := List.eq_nil_iff_forall_not_mem.mpr
      fun block inside => absurd (none_ block) (List.count_pos_iff.mpr inside).ne'
    exact List.map_eq_nil_iff.mp empty
  · rintro ⟨nothing, known, read⟩ block
    have all := (counts block).1
    have gains := gained_brought event known read block
    rw [nothing, before] at all
    change total h' block + (blocks []).count block = _ at all
    rw [blocks, List.map_nil, List.count_nil] at all
    show total h' block = brought h'.buffers block
    rw [buffers]
    omega

theorem create_balanced (ctx : List Effect → UInt32 → Bool) (id slave : UInt32) :
    Balanced (harborCreate ctx id slave) := by
  intro block
  have slots : inSlots (harborCreate ctx id slave).s block = 0 := by
    unfold inSlots
    exact Finset.sum_eq_zero fun _ _ => rfl
  have names : inNames (harborCreate ctx id slave).map block = 0 := by
    unfold inNames
    exact Finset.sum_eq_zero fun _ _ => rfl
  unfold total
  rw [slots, names]
  rfl

theorem create_distinct (ctx : List Effect → UInt32 → Bool) (id slave : UInt32) :
    Distinct (harborCreate ctx id slave).map := fun _ => List.nodup_nil

theorem unknown_done (fd : Int) (bytes : List UInt8) (unknown : harborId h fd = 0) :
    ∃ h', mainloop h (.data fd bytes) = some h' := by
  have pushed : ∃ middle, pushSocketData { h with buffers := h.buffers + 1 } fd
      { id := h.buffers, bytes := bytes } = some middle := by
    unfold pushSocketData
    rw [show harborId { h with buffers := h.buffers + 1 } fd = 0 from unknown]
    exact ⟨_, rfl⟩
  obtain ⟨middle, pushed⟩ := pushed
  exact ⟨_, congrArg (Option.map _) pushed⟩

theorem balanced_iff (ctx : List Effect → UInt32 → Bool) (id slave : UInt32) (events : List Event)
    (h : Harbor) (reached : Transition.run mainloop (harborCreate ctx id slave) events = some h) :
    (∀ before later middle, events = before ++ later →
      Transition.run mainloop (harborCreate ctx id slave) before = some middle →
      Balanced middle) ↔
    Transition.Along mainloop Releases (harborCreate ctx id slave) events := by
  refine Transition.Along.iff_holds Balanced (fun h => Distinct h.map) ?_ ?_ events _ h ?_ ?_ reached
  · intro h event h' distinct done
    exact (mainloop_total distinct event done 0).2.1
  · intro h event h' distinct balanced done
    exact balanced_step event done distinct balanced
  · exact create_distinct ctx id slave
  · exact create_balanced ctx id slave

-- The link to the harbor 2 shakes hands and brings a message, and a message waits for a name.
def linkRun : List Event :=
  [.command [0x53, 0x20, 0x37, 0x20, 0x32] 9, .data 7 [2],
    .data 7 ([0, 0, 0, 13, 65] ++ headerToMessage ⟨0x2000005, 0xa000003, 1⟩),
    .remote 0x1000003 0 (toName [0x78]) 10 1 [65]]

theorem linkRun_releases :
    Transition.Along mainloop Releases (harborCreate (fun _ _ => true) 1 9) linkRun := by
  have known {h : Harbor} {fd : Int} {bytes : List UInt8} (here : harborId h fd ≠ 0)
      (kept : lost h (.data fd bytes) = []) : Releases h (.data fd bytes) := by
    refine ⟨kept, ?_, fun name => Event.noConfusion⟩
    intro other more same
    obtain ⟨rfl, rfl⟩ := Event.data.inj same
    exact here
  have other {h : Harbor} {event : Event} (kept : lost h event = [])
      (data : ∀ fd bytes, event ≠ .data fd bytes) (read : ∀ name, event ≠ .misread name) :
      Releases h event :=
    ⟨kept, fun fd bytes same => absurd same (data fd bytes), read⟩
  refine ⟨other rfl ?_ ?_, known (by decide) rfl, known (by decide) rfl, other rfl ?_ ?_, trivial⟩
  all_goals
    intros
    exact Event.noConfusion

theorem balanced_connected :
    ∃ h, Transition.run mainloop (harborCreate (fun _ _ => true) 1 9) linkRun = some h ∧
      blocks (waiting h (toName [0x78])) = [2] ∧ Balanced h := by
  refine ⟨_, rfl, rfl, ?_⟩
  exact (balanced_iff (fun _ _ => true) 1 9 linkRun _ rfl).mpr linkRun_releases linkRun [] _
    (List.append_nil _).symm rfl

theorem unknown_data_twice :
    ¬∀ (ctx : List Effect → UInt32 → Bool) (id slave : UInt32) (events : List Event) (h : Harbor),
      Transition.run mainloop (harborCreate ctx id slave) events = some h → Balanced h := by
  intro all
  have unknown : harborId (harborCreate (fun _ _ => true) 1 2) 3 = 0 := by decide
  obtain ⟨h, done⟩ := unknown_done 3 [1] unknown
  have balanced : Balanced h := by
    refine all (fun _ _ => true) 1 2 [.data 3 [1]] h ?_
    simp only [Transition.run, done]
  have releases := (balanced_step _ done (create_distinct _ 1 2) (create_balanced _ 1 2)).mp balanced
  exact releases.known 3 [1] rfl unknown

end Pskynet.Harbor
