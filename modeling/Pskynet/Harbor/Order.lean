import Pskynet.Harbor.Traffic

set_option autoImplicit false

namespace Pskynet.Harbor

open Server Memory

-- What an event brings in: which blocks come to wait for a name, and which are submitted to a
-- harbor.
inductive Intake (h : Harbor) (event : Event) (h' : Harbor) : Prop where
  | quiet (buffers : h.buffers ≤ h'.buffers) (names : ∀ name, waiting h' name = waiting h name)
      (none : ∀ k, submits h event k = [])
  | waits (name : Name) (m : HarborMsg) (fresh : m.buffer.id = h.buffers)
      (buffers : h'.buffers = h.buffers + 1)
      (here : ∀ other, nameKey other = nameKey name → waiting h' other = waiting h other ++ [m])
      (names : ∀ other, nameKey other ≠ nameKey name → waiting h' other = waiting h other)
      (none : ∀ k, submits h event k = [])
  | direct (k : Nat) (m : HarborMsg) (fresh : m.buffer.id = h.buffers)
      (buffers : h'.buffers = h.buffers + 1) (names : ∀ name, waiting h' name = waiting h name)
      (submitted : submits h event k = [m])
      (none : ∀ other, other ≠ k → submits h event other = [])
  | binds (name : Name) (k : Nat) (buffers : h'.buffers = h.buffers)
      (here : ∀ other, nameKey other = nameKey name → waiting h' other = [])
      (names : ∀ other, nameKey other ≠ nameKey name → waiting h' other = waiting h other)
      (submitted : submits h event k = waiting h name)
      (none : ∀ other, other ≠ k → submits h event other = [])

theorem waiting_of_map (h h' : Harbor) (map : h'.map = h.map) (name : Name) :
    waiting h' name = waiting h name := by
  rw [waiting, waiting, map]

theorem isSome_hashNode_congr (hash : HashMap) (name other : Name)
    (same : nameKey other = nameKey name) : (hashSearch (hashNode hash name) other).isSome := by
  rw [hashSearch_congr _ other name same]
  unfold hashNode
  split_ifs with missing
  · rw [hashSearch_hashInsert, if_pos rfl]
    rfl
  · simpa [Option.isSome_iff_ne_none] using missing

theorem waiting_write (h : Harbor) (hash : HashMap) (name other : Name) (value : UInt32)
    (queue : Option Queue) (there : ∀ other, nameKey other = nameKey name →
      (hashSearch hash other).isSome) :
    waiting { h with map := hashWrite hash name value queue } other =
      if nameKey other = nameKey name then queued queue else waiting { h with map := hash } other := by
  rw [waiting, hashSearch_hashWrite]
  split_ifs with same
  · obtain ⟨node, found⟩ := Option.isSome_iff_exists.mp (there other same)
    rw [found]
    rfl
  · rfl

theorem isSome_hashWrite (hash : HashMap) (name other : Name) (value : UInt32)
    (queue : Option Queue) :
    (hashSearch (hashWrite hash name value queue) other).isSome = (hashSearch hash other).isSome := by
  rw [search_hashWrite, Option.isSome_map]

theorem updateName_waiting (h h' : Harbor) (name : Name) (handle : UInt32)
    (done : updateName h name handle = some h') (other : Name) :
    waiting h' other = if nameKey other = nameKey name then [] else waiting h other := by
  have there := isSome_hashNode_congr h.map name
  unfold updateName at done
  simp only at done
  cases queue : (hashSearch (hashNode h.map name) name).bind (·.queue) with
  | none =>
    simp only [queue, Option.some.injEq] at done
    rw [← done, waiting_write h _ name other _ _ there, waiting_hashNode]
    rfl
  | some queue' =>
    simp only [queue, Option.map_eq_some_iff, Prod.exists] at done
    obtain ⟨middle, left, dispatched, rfl⟩ := done
    obtain ⟨_, _, map, _⟩ := dispatchNameQueue_bound _ middle name handle queue' left dispatched
    simp only [releaseQueue_eq, map]
    have second := waiting_write h (hashWrite (hashNode h.map name) name handle (some queue')) name
      other handle none (by
        intro other same
        rw [isSome_hashWrite]
        exact there other same)
    have first := waiting_write h (hashNode h.map name) name other handle (some queue') there
    refine second.trans ?_
    split_ifs with same
    · rfl
    · rw [first, if_neg same, waiting_hashNode]

theorem mainloop_data_map (h h' : Harbor) (fd : Int) (bytes : List UInt8) (wired : Wired h)
    (done : mainloop h (.data fd bytes) = some h') :
    h'.map = h.map ∧ h'.buffers = h.buffers + 1 := by
  simp only [mainloop, Option.map_eq_some_iff] at done
  obtain ⟨last, pushed, rfl⟩ := done
  change last.map = h.map ∧ last.buffers = h.buffers + 1
  unfold pushSocketData at pushed
  simp only at pushed
  split_ifs at pushed with unknown
  · rw [← Option.some.inj pushed]
    exact ⟨rfl, rfl⟩
  · generalize harborId { h with buffers := h.buffers + 1 } fd = id at pushed
    have slot := wired id
    by_cases status : (h.s id).status = .handshake
    · cases bytes with
      | nil =>
        simp only [socketLoop, socketTurn, status, readHandshake] at pushed
        contradiction
      | cons first rest =>
        have linked : (h.s id).fd ≠ 0 := slot.linked (by rw [status]; decide)
        rcases socketLoop_greeted _ { h with buffers := h.buffers + 1 } last id fd first rest status
          linked pushed with ⟨_, text, closed⟩ | ⟨_, calm⟩
        · rw [closed, closeHarbor_eq]
          exact ⟨rfl, rfl⟩
        · exact ⟨calm.map, calm.buffers⟩
    · have calm := socketLoop_calm _ { h with buffers := h.buffers + 1 } last id fd bytes status
        (fun open_ => slot.flushed open_.1 open_.2) pushed
      exact ⟨calm.map, calm.buffers⟩

theorem remoteSendHandle_map (h : Harbor) (source destination : UInt32) (type : UInt8)
    (session : UInt32) (msg : Buffer) :
    (remoteSendHandle h source destination type session msg).1.map = h.map ∧
      (remoteSendHandle h source destination type session msg).1.buffers = h.buffers := by
  unfold remoteSendHandle
  simp only
  split_ifs <;> exact ⟨rfl, rfl⟩

theorem released_map (result : Harbor × Bool) (block : Nat) :
    (released result block).map = result.1.map ∧
      (released result block).buffers = result.1.buffers := by
  unfold released
  split_ifs <;> exact ⟨rfl, rfl⟩

theorem known_intake (h base h' : Harbor) (source handle : UInt32) (name : Name)
    (type : RemoteType)
    (session : UInt32) (message : List UInt8) (known : resolve h handle name ≠ 0)
    (buffers : base.buffers = h.buffers + 1) (names : ∀ other, waiting base other = waiting h other)
    (sent : released (remoteSendHandle base source (resolve h handle name) type session
      { id := h.buffers, bytes := message }) h.buffers = h') :
    Intake h (.remote source handle name type session message) h' := by
  obtain ⟨sentMap, sentBuffers⟩ := remoteSendHandle_map base source (resolve h handle name) type
    session { id := h.buffers, bytes := message }
  obtain ⟨map, counted⟩ := released_map (remoteSendHandle base source (resolve h handle name) type
    session { id := h.buffers, bytes := message }) h.buffers
  rw [sent] at map counted
  have grown : h'.buffers = h.buffers + 1 := by rw [counted, sentBuffers, buffers]
  have kept (other : Name) : waiting h' other = waiting h other := by
    rw [← names, waiting_of_map base h' (by rw [map, sentMap])]
  by_cases own : resolve h handle name >>> 24 = h.id
  · refine .quiet (by omega) kept ?_
    intro k
    simp only [submits, own, ne_eq, not_true_eq_false, false_and, and_false, if_false]
  · refine .direct (resolve h handle name >>> 24).toNat
      (remoteMsg h source (resolve h handle name) type session message) rfl grown kept ?_ ?_
    · exact if_pos ⟨known, own, rfl⟩
    · intro other different
      exact if_neg fun all => different all.2.2.symm

def namedMsg (source : UInt32) (type : UInt8) (session : UInt32) (msg : Buffer) : HarborMsg where
  header := { source := source, destination := type.toUInt32 <<< 24, session := session }
  buffer := msg

theorem remoteSendName_waiting (h : Harbor) (source : UInt32) (name other : Name) (type : UInt8)
    (session : UInt32) (msg : Buffer)
    (unbound : ((hashSearch (hashNode h.map name) name).map (·.value)).getD 0 = 0) :
    waiting (remoteSendName h source name type session msg).1 other =
      if nameKey other = nameKey name then
        waiting h other ++ [namedMsg source type session msg]
      else waiting h other := by
  unfold remoteSendName
  simp only [unbound, if_true]
  have stored := waiting_write h (hashNode h.map name) name other 0
    (some (pushQueueMsg (((hashSearch (hashNode h.map name) name).bind (·.queue)).getD newQueue)
      (namedMsg source type session msg))) (isSome_hashNode_congr h.map name)
  refine stored.trans ?_
  split_ifs with same
  · rw [queued_some, contents_pushQueueMsg, queued_getD, hashSearch_hashNode, waiting,
      hashSearch_congr _ other name same]
  · exact waiting_hashNode h name other

theorem mainloop_remote_intake (h h' : Harbor) (source handle : UInt32) (name : Name)
    (type : RemoteType) (session : UInt32) (message : List UInt8)
    (done : mainloop h (.remote source handle name type session message) = some h') :
    Intake h (.remote source handle name type session message) h' := by
  simp only [mainloop, Option.some.injEq] at done
  by_cases named : handle = 0
  · rw [if_pos named] at done
    have value : ((hashSearch (hashNode h.map name) name).map (·.value)).getD 0 =
        resolve h handle name := by
      rw [value_hashNode, resolve, if_pos named]
    by_cases unbound : resolve h handle name = 0
    · rw [unbound] at value
      have kept := remoteSendName_waiting { h with buffers := h.buffers + 1 } source name
      have stored : (remoteSendName { h with buffers := h.buffers + 1 } source name type session
          { id := h.buffers, bytes := message }).2 = true := by
        simp only [remoteSendName, value, if_true]
      have counted : (remoteSendName { h with buffers := h.buffers + 1 } source name type session
          { id := h.buffers, bytes := message }).1.buffers = h.buffers + 1 := by
        simp only [remoteSendName, value, if_true]
        rfl
      rw [stored, if_pos rfl] at done
      rw [← done]
      refine .waits name (namedMsg source type session { id := h.buffers, bytes := message }) rfl
        counted ?_ ?_ ?_
      · intro other same
        rw [kept other type session _ value, if_pos same]
        rfl
      · intro other different
        rw [kept other type session _ value, if_neg different]
        rfl
      · intro k
        simp only [submits, unbound, ne_eq, not_true_eq_false, false_and, if_false]
    · have passed : remoteSendName { h with buffers := h.buffers + 1 } source name type session
          { id := h.buffers, bytes := message } =
          remoteSendHandle { h with buffers := h.buffers + 1, map := hashNode h.map name } source
            (resolve h handle name) type session { id := h.buffers, bytes := message } := by
        simp only [remoteSendName, value, unbound, if_false]
      rw [passed] at done
      exact known_intake h { h with buffers := h.buffers + 1, map := hashNode h.map name } h' source
        handle name type session message unbound rfl (waiting_hashNode h name) done
  · rw [if_neg named] at done
    have resolved : resolve h handle name = handle := if_neg named
    rw [← resolved] at done
    refine known_intake h { h with buffers := h.buffers + 1 } h' source handle name type session
      message ?_ rfl (fun _ => rfl) done
    rwa [resolved]

theorem openLink_map (h h' : Harbor) (fd : Int) (id : Nat) (connect : Bool) (linked : fd ≠ 0)
    (opened : openLink h fd id connect = some h') : h'.map = h.map ∧ h'.buffers = h.buffers := by
  unfold openLink at opened
  simp only at opened
  split_ifs at opened with connecting
  · rw [← Option.some.inj opened]
    exact ⟨rfl, rfl⟩
  · rw [dispatchQueue_eq _ _ (by simpa [Harbor.setSlave, handshake, Harbor.did] using linked)]
      at opened
    rw [← Option.some.inj opened]
    exact ⟨rfl, rfl⟩

theorem updateName_buffers (h h' : Harbor) (name : Name) (handle : UInt32)
    (done : updateName h name handle = some h') : h'.buffers = h.buffers := by
  unfold updateName at done
  simp only at done
  cases queue : (hashSearch (hashNode h.map name) name).bind (·.queue) with
  | none =>
    simp only [queue, Option.some.injEq] at done
    rw [← done]
  | some queue' =>
    simp only [queue, Option.map_eq_some_iff, Prod.exists] at done
    obtain ⟨middle, left, dispatched, rfl⟩ := done
    simp only [releaseQueue_eq]
    unfold dispatchNameQueue at dispatched
    simp only at dispatched
    split_ifs at dispatched
    · rw [← (Prod.mk.inj (Option.some.inj dispatched)).1]
      rfl
    · split at dispatched
      all_goals
        rw [← (Prod.mk.inj (Option.some.inj dispatched)).1]
        rfl
    · rw [← (Prod.mk.inj (Option.some.inj dispatched)).1, CircularBuffer.drain_fst]
      simp only [sendRemote]
      rw [foldl_did]

theorem harborCommand_intake (h h' : Harbor) (msg : List UInt8) (source : UInt32)
    (done : harborCommand h msg source = some h') : Intake h (.command msg source) h' := by
  cases binds : bindsName msg with
  | some name =>
    rw [harborCommand_binds h msg source name binds] at done
    have names := updateName_waiting h h' name source done
    have buffers := updateName_buffers h h' name source done
    have submitted (k : Nat) : submits h (.command msg source) k =
        if source >>> 24 ≠ 0 ∧ (source >>> 24).toNat = k then waiting h name else [] := by
      simp only [submits, binds]
    obtain ⟨_, _, ⟨none, _, _⟩ | ⟨remote, _⟩⟩ := updateName_cases h h' name source done
    · refine .quiet buffers.ge ?_ ?_
      · intro other
        rw [names]
        split_ifs with same
        · rw [← none, waiting, waiting, hashSearch_congr _ other name same]
        · rfl
      · intro k
        rw [submitted, none, ite_self]
    · refine .binds name (source >>> 24).toNat buffers ?_ ?_ ?_ ?_
      · intro other same
        rw [names, if_pos same]
      · intro other different
        rw [names, if_neg different]
      · rw [submitted, if_pos ⟨remote, rfl⟩]
      · intro other different
        rw [submitted, if_neg (fun both => different both.2.symm)]
  | none =>
    have submitted (k : Nat) : submits h (.command msg source) k = [] := by
      simp only [submits, binds]
    have quiet (same : h'.map = h.map ∧ h'.buffers = h.buffers) : Intake h (.command msg source) h' :=
      .quiet same.2.ge (fun other => waiting_of_map h h' same.1 other) submitted
    refine quiet ?_
    unfold harborCommand at done
    simp only at done
    split at done
    · rename_i letter
      split_ifs at done with bad
      · rw [← Option.some.inj done]
        exact ⟨rfl, rfl⟩
      · rw [bindsName, if_pos ⟨letter, bad⟩] at binds
        contradiction
    · split_ifs at done with linking _ bad taken
      · rw [← Option.some.inj done]
        exact ⟨rfl, rfl⟩
      · rw [← Option.some.inj done]
        exact ⟨rfl, rfl⟩
      · exact openLink_map h h' _ _ _ (fun zero => bad (.inl zero)) done
      · rw [← Option.some.inj done]
        exact ⟨rfl, rfl⟩
    · rw [← Option.some.inj done]
      exact ⟨rfl, rfl⟩

theorem mainloop_intake (h h' : Harbor) (event : Event) (wired : Wired h)
    (done : mainloop h event = some h') : Intake h event h' := by
  have quiet (submitted : ∀ k, submits h event k = []) (map : h'.map = h.map)
      (buffers : h.buffers ≤ h'.buffers) : Intake h event h' :=
    .quiet buffers (fun other => waiting_of_map h h' map other) submitted
  cases event with
  | data fd bytes =>
    obtain ⟨map, buffers⟩ := mainloop_data_map h h' fd bytes wired done
    exact quiet (fun _ => rfl) map (by omega)
  | closed fd =>
    refine quiet (fun _ => rfl) ?_ ?_
    all_goals
      simp only [mainloop] at done
      split_ifs at done
      all_goals
        rw [← Option.some.inj done]
        rfl
  | connected fd =>
    rw [← Option.some.inj done] at quiet ⊢
    exact quiet (fun _ => rfl) rfl le_rfl
  | socket type =>
    rw [← Option.some.inj done] at quiet ⊢
    exact quiet (fun _ => rfl) rfl le_rfl
  | command msg source => exact harborCommand_intake h h' msg source done
  | remote source handle name type session message =>
    exact mainloop_remote_intake h h' source handle name type session message done
  | misread name =>
    obtain rfl | ⟨effect, _, rfl⟩ := misread_cases _ h' name done
    · exact quiet (fun _ => rfl) rfl (Nat.le_succ _)
    · exact quiet (fun _ => rfl) rfl (Nat.le_succ _)

structure Watched where
  harbor : Harbor
  submitted : Nat → List Nat

def watch (w : Watched) (event : Event) : Option Watched :=
  (mainloop w.harbor event).map fun h =>
    { harbor := h, submitted := fun k => w.submitted k ++ blocks (submits w.harbor event k) }

def watchedCreate (ctx : List Effect → UInt32 → Bool) (id slave : UInt32) : Watched where
  harbor := harborCreate ctx id slave
  submitted := fun _ => []

def Watched.written (w : Watched) (k : Nat) : List (Int × Nat) :=
  (sentBlocks w.harbor.log).filter fun sent => sent.2 ∈ w.submitted k

structure Inventory (w : Watched) : Prop where
  made : ∀ k, ∀ block ∈ w.submitted k, block < w.harbor.buffers
  madeNamed : ∀ name, ∀ block ∈ blocks (waiting w.harbor name), block < w.harbor.buffers
  apart : ∀ k name, (w.submitted k).Disjoint (blocks (waiting w.harbor name))
  links : ∀ j k, j ≠ k → (w.submitted j).Disjoint (w.submitted k)
  names : ∀ one two, nameKey one ≠ nameKey two →
    (blocks (waiting w.harbor one)).Disjoint (blocks (waiting w.harbor two))
  once : ∀ k, (w.submitted k).Nodup
  onceNamed : ∀ name, (blocks (waiting w.harbor name)).Nodup

theorem create_inventory (ctx : List Effect → UInt32 → Bool) (id slave : UInt32) :
    Inventory (watchedCreate ctx id slave) := by
  have none (name : Name) : waiting (harborCreate ctx id slave) name = [] := rfl
  constructor <;> simp [none, watchedCreate, blocks]

theorem watch_eq (w w' : Watched) (event : Event) (seen : watch w event = some w') :
    mainloop w.harbor event = some w'.harbor ∧
      ∀ k, w'.submitted k = w.submitted k ++ blocks (submits w.harbor event k) := by
  obtain ⟨h, done, rfl⟩ := Option.map_eq_some_iff.mp seen
  exact ⟨done, fun _ => rfl⟩

theorem Inventory.waits {w w' : Watched} (inventory : Inventory w) (name : Name) (m : HarborMsg)
    (fresh : m.buffer.id = w.harbor.buffers) (buffers : w'.harbor.buffers = w.harbor.buffers + 1)
    (here : ∀ other, nameKey other = nameKey name →
      waiting w'.harbor other = waiting w.harbor other ++ [m])
    (names : ∀ other, nameKey other ≠ nameKey name →
      waiting w'.harbor other = waiting w.harbor other)
    (same : w'.submitted = w.submitted) : Inventory w' := by
  have cases_ (other : Name) :
      blocks (waiting w'.harbor other) = blocks (waiting w.harbor other) ++
        if nameKey other = nameKey name then [w.harbor.buffers] else [] := by
    split_ifs with known
    · rw [here other known, ← fresh, blocks, List.map_append]
      rfl
    · rw [names other known, List.append_nil]
  have unused (other : Name) : w.harbor.buffers ∉ blocks (waiting w.harbor other) :=
    fun inside => absurd (inventory.madeNamed other _ inside) (lt_irrefl _)
  refine ⟨?_, ?_, ?_, ?_, ?_, ?_, ?_⟩
  · intro k block inside
    rw [same] at inside
    have := inventory.made k block inside
    omega
  · intro other block inside
    rw [cases_, List.mem_append] at inside
    rcases inside with old | new
    · have := inventory.madeNamed other block old
      omega
    · split_ifs at new
      · rw [List.mem_singleton.mp new]
        omega
      · contradiction
  · intro k other
    rw [same, cases_, List.disjoint_append_right]
    refine ⟨inventory.apart k other, ?_⟩
    split_ifs
    · rw [List.disjoint_singleton]
      exact fun inside => absurd (inventory.made k _ inside) (lt_irrefl _)
    · simp
  · rw [same]
    exact inventory.links
  · intro one two different
    have old := inventory.names one two different
    rw [cases_, cases_]
    split_ifs with first second second
    · exact absurd (first.trans second.symm) different
    · simpa using ⟨old, unused two⟩
    · simpa using ⟨old, unused one⟩
    · simpa using old
  · rw [same]
    exact inventory.once
  · intro other
    have old := inventory.onceNamed other
    rw [cases_]
    split_ifs
    · exact old.append (List.nodup_singleton _) (List.disjoint_singleton.mpr (unused other))
    · simpa using old

theorem Inventory.submit {w w' : Watched} (inventory : Inventory w) (k : Nat) (more : List Nat)
    (buffers : w.harbor.buffers ≤ w'.harbor.buffers) (made : ∀ block ∈ more, block < w'.harbor.buffers)
    (names : ∀ name, (blocks (waiting w'.harbor name)).Sublist (blocks (waiting w.harbor name)))
    (submitted : ∀ other, w'.submitted other = w.submitted other ++ if other = k then more else [])
    (fresh : ∀ other, (w.submitted other).Disjoint more)
    (free : ∀ name, more.Disjoint (blocks (waiting w'.harbor name))) (once : more.Nodup) :
    Inventory w' := by
  refine ⟨?_, ?_, ?_, ?_, ?_, ?_, ?_⟩
  · intro other block inside
    rw [submitted, List.mem_append] at inside
    rcases inside with old | new
    · have := inventory.made other block old
      omega
    · split_ifs at new
      · exact made block new
      · contradiction
  · intro name block inside
    have := inventory.madeNamed name block ((names name).subset inside)
    omega
  · intro other name
    rw [submitted, List.disjoint_append_left]
    refine ⟨List.disjoint_of_subset_right (names name).subset (inventory.apart other name), ?_⟩
    split_ifs
    · exact free name
    · simp
  · intro one two different
    have old := inventory.links one two different
    rw [submitted, submitted]
    split_ifs with first second second
    · exact absurd (first.trans second.symm) different
    · simpa using ⟨old, (fresh two).symm⟩
    · simpa using ⟨old, fresh one⟩
    · simpa using old
  · intro one two different
    exact List.disjoint_of_subset_left (names one).subset
      (List.disjoint_of_subset_right (names two).subset (inventory.names one two different))
  · intro other
    rw [submitted]
    split_ifs
    · exact (inventory.once other).append once (fresh other)
    · simpa using inventory.once other
  · intro name
    exact (inventory.onceNamed name).sublist (names name)

theorem Inventory.step {w w' : Watched} (inventory : Inventory w) (event : Event)
    (intake : Intake w.harbor event w'.harbor)
    (submitted : ∀ k, w'.submitted k = w.submitted k ++ blocks (submits w.harbor event k)) :
    Inventory w' := by
  have same (none : ∀ k, submits w.harbor event k = []) : w'.submitted = w.submitted := by
    funext k
    rw [submitted, none]
    exact List.append_nil _
  have onlyTo (k : Nat) (more : List Nat) (here : blocks (submits w.harbor event k) = more)
      (none : ∀ other, other ≠ k → submits w.harbor event other = []) (other : Nat) :
      w'.submitted other = w.submitted other ++ if other = k then more else [] := by
    rw [submitted]
    split_ifs with equal
    · rw [equal, here]
    · rw [none other equal]
      rfl
  cases intake with
  | quiet buffers names none =>
    refine inventory.submit 0 [] buffers (by simp) ?_ ?_ (by simp) (by simp) List.nodup_nil
    · intro name
      rw [names]
    · intro other
      rw [same none, ite_self, List.append_nil]
  | waits name m fresh buffers here names none =>
    exact inventory.waits name m fresh buffers here names (same none)
  | direct k m fresh buffers names mine none =>
    have block : blocks [m] = [w.harbor.buffers] := by rw [← fresh]; rfl
    refine inventory.submit k [w.harbor.buffers] (by omega) ?_ ?_
      (onlyTo k _ (by rw [mine, block]) none) ?_ ?_ (List.nodup_singleton _)
    · intro block inside
      rw [List.mem_singleton.mp inside]
      omega
    · intro name
      rw [names]
    · intro other
      rw [List.disjoint_singleton]
      exact fun inside => absurd (inventory.made other _ inside) (lt_irrefl _)
    · intro name
      rw [List.singleton_disjoint, names]
      exact fun inside => absurd (inventory.madeNamed name _ inside) (lt_irrefl _)
  | binds name k buffers here names mine none =>
    refine inventory.submit k (blocks (waiting w.harbor name)) buffers.ge ?_ ?_
      (onlyTo k _ (by rw [mine]) none) (fun other => inventory.apart other name) ?_
      (inventory.onceNamed name)
    · intro block inside
      rw [buffers]
      exact inventory.madeNamed name block inside
    · intro other
      by_cases known : nameKey other = nameKey name
      · rw [here other known]
        exact List.nil_sublist _
      · rw [names other known]
    · intro other
      by_cases known : nameKey other = nameKey name
      · rw [here other known]
        simp [blocks]
      · rw [names other known]
        exact inventory.names name other fun equal => known equal.symm

-- Of what was submitted to a harbor, a beginning was handled and the rest is in its queue. What
-- was written of it is in order, and on its link.
structure Orderly (w : Watched) (k : Nat) : Prop where
  handled : ∃ handled,
    w.submitted k = handled ++ blocks (queued (w.harbor.s k).queue) ∧
      ((w.written k).map Prod.snd).Sublist handled ∧
      (¬(w.harbor.s k).status.flushed → handled = [])
  link : ∀ sent ∈ w.written k, sent.1 = (w.harbor.s k).fd

structure InOrder (w : Watched) : Prop where
  wired : Wired w.harbor
  inventory : Inventory w
  known : ∀ sent ∈ sentBlocks w.harbor.log, ∃ k, sent.2 ∈ w.submitted k
  orderly : ∀ k, Orderly w k

theorem create_inOrder (ctx : List Effect → UInt32 → Bool) (id slave : UInt32) :
    InOrder (watchedCreate ctx id slave) := by
  refine ⟨create_wired ctx id slave, create_inventory ctx id slave, by simp [watchedCreate, harborCreate, sentBlocks], ?_⟩
  intro k
  exact ⟨⟨[], rfl, List.nil_sublist _, fun _ => rfl⟩, by simp [Watched.written, watchedCreate]⟩

theorem Orderly.step {w w' : Watched} {event : Event} {k : Nat} {sent : List Nat}
    (inOrder : InOrder w) (inventory : Inventory w') (patient : Patient w.harbor event)
    (submitted : ∀ k, w'.submitted k = w.submitted k ++ blocks (submits w.harbor event k))
    (traffic : Traffic w.harbor event w'.harbor k sent) : Orderly w' k := by
  obtain ⟨⟨handled, split, order, early⟩, link⟩ := inOrder.orderly k
  obtain ⟨new, log, writes, _⟩ := traffic.log
  have later : w'.submitted k =
      (handled ++ sent ++ blocks (refused w.harbor event k)) ++
        blocks (queued (w'.harbor.s k).queue) := by
    rw [submitted, split, List.append_assoc, traffic.order (.inl patient)]
    simp only [List.append_assoc]
  have old : (sentBlocks w.harbor.log).filter (fun sent => sent.2 ∈ w'.submitted k) =
      w.written k := by
    refine List.filter_congr ?_
    intro pair inside
    obtain ⟨j, mine⟩ := inOrder.known pair inside
    have still : pair.2 ∈ w'.submitted j := by
      rw [submitted]
      exact List.mem_append_left _ mine
    by_cases same : j = k
    · simp only [decide_eq_decide]
      exact ⟨fun _ => same ▸ mine, fun _ => same ▸ still⟩
    · have gone : pair.2 ∉ w'.submitted k := inventory.links j k same still
      have before : pair.2 ∉ w.submitted k := inOrder.inventory.links j k same mine
      simp only [gone, before]
  have fresh : (sentBlocks new).filter (fun sent => sent.2 ∈ w'.submitted k) = sentBlocks new := by
    rw [List.filter_eq_self, writes]
    intro pair inside
    obtain ⟨block, among, rfl⟩ := List.mem_map.mp inside
    rw [decide_eq_true_eq, later]
    simp [among]
  have all : w'.written k = w.written k ++ sentBlocks new := by
    rw [Watched.written, log, sentBlocks_append, List.filter_append, old, fresh]
  refine ⟨⟨_, later, ?_, ?_⟩, ?_⟩
  · have names : (sentBlocks new).map Prod.snd = sent := by
      rw [writes, List.map_map]
      exact List.map_id _
    rw [all, List.map_append, names]
    exact (order.append (List.Sublist.refl sent)).trans (List.sublist_append_left _ _)
  · intro still
    obtain ⟨before, none, kept⟩ := traffic.early patient still
    rw [early before, none, kept]
    rfl
  · intro pair inside
    rw [all, List.mem_append] at inside
    rcases inside with first | second
    · rw [link pair first]
      refine (traffic.fd ?_).symm
      intro free
      have idle : ¬(w.harbor.s k).status.flushed := by
        intro open_
        exact (inOrder.wired k).linked open_.1 free
      have empty := order.subset (List.mem_map_of_mem first)
      rw [early idle] at empty
      contradiction
    · rw [writes] at second
      obtain ⟨block, _, rfl⟩ := List.mem_map.mp second
      rfl

theorem Orderly.other {w w' : Watched} {event : Event} {j k : Nat} {sent : List Nat}
    (orderly : Orderly w k) (inventory : Inventory w') (different : k ≠ j)
    (submitted : ∀ k, w'.submitted k = w.submitted k ++ blocks (submits w.harbor event k))
    (mine : ∀ block ∈ sent, block ∈ w'.submitted j)
    (traffic : Traffic w.harbor event w'.harbor j sent) : Orderly w' k := by
  obtain ⟨new, log, writes, _⟩ := traffic.log
  obtain ⟨slot, none, _⟩ := traffic.others k different
  have same : w'.submitted k = w.submitted k := by
    rw [submitted, none]
    exact List.append_nil _
  have fresh : (sentBlocks new).filter (fun sent => sent.2 ∈ w'.submitted k) = [] := by
    rw [List.filter_eq_nil_iff, writes]
    intro pair inside
    obtain ⟨block, among, rfl⟩ := List.mem_map.mp inside
    rw [decide_eq_true_eq]
    exact inventory.links j k different.symm (mine block among)
  have all : w'.written k = w.written k := by
    rw [Watched.written, log, sentBlocks_append, List.filter_append, fresh, List.append_nil, same]
    rfl
  obtain ⟨handled, link⟩ := orderly
  refine ⟨?_, ?_⟩
  · rw [all, same, slot]
    exact handled
  · rw [all, slot]
    exact link

theorem watch_inOrder (w w' : Watched) (event : Event) (inOrder : InOrder w)
    (patient : Patient w.harbor event) (seen : watch w event = some w') : InOrder w' := by
  obtain ⟨done, submitted⟩ := watch_eq w w' event seen
  have moves := mainloop_moved w.harbor w'.harbor event inOrder.wired done
  have inventory := inOrder.inventory.step event
    (mainloop_intake w.harbor w'.harbor event inOrder.wired done) submitted
  obtain ⟨k, sent, traffic⟩ := mainloop_traffic w.harbor w'.harbor event inOrder.wired done
  have orderly := Orderly.step inOrder inventory patient submitted traffic
  have mine : ∀ block ∈ sent, block ∈ w'.submitted k := by
    intro block inside
    obtain ⟨handled, split, _, _⟩ := (inOrder.orderly k).handled
    rw [submitted, split, List.append_assoc, traffic.order (.inl patient)]
    simp [inside]
  refine ⟨moves.wired inOrder.wired, inventory, ?_, ?_⟩
  · intro pair inside
    obtain ⟨new, log, writes, _⟩ := traffic.log
    rw [log, sentBlocks_append, List.mem_append] at inside
    rcases inside with old | fresh
    · obtain ⟨j, known⟩ := inOrder.known pair old
      refine ⟨j, ?_⟩
      rw [submitted]
      exact List.mem_append_left _ known
    · rw [writes] at fresh
      obtain ⟨block, among, rfl⟩ := List.mem_map.mp fresh
      exact ⟨k, mine block among⟩
  · intro other
    by_cases same : other = k
    · exact same ▸ orderly
    · exact (inOrder.orderly other).other inventory same submitted mine traffic

-- No message of a harbor is on its link before the handshake byte of the peer was checked, and
-- what is on the link is in the order of submission.
def NothingOvertakes (w : Watched) (k : Nat) : Prop :=
  ((w.harbor.s k).status = .handshake → w.written k = []) ∧
    ((w.written k).map Prod.snd).Sublist (w.submitted k) ∧ (w.submitted k).Nodup ∧
    ∀ sent ∈ w.written k, sent.1 = (w.harbor.s k).fd

theorem InOrder.nothingOvertakes {w : Watched} (inOrder : InOrder w) (k : Nat) :
    NothingOvertakes w k := by
  obtain ⟨⟨handled, split, order, early⟩, link⟩ := inOrder.orderly k
  refine ⟨?_, ?_, inOrder.inventory.once k, link⟩
  · intro status
    have none := early fun open_ => open_.2 status
    rw [none] at order
    exact List.map_eq_nil_iff.mp (List.sublist_nil.mp order)
  · rw [split]
    exact order.trans (List.sublist_append_left _ _)

theorem nothing_overtakes (ctx : List Effect → UInt32 → Bool) (own slave : UInt32) (w : Watched)
    (reached : Transition.Path watch (fun w event => Patient w.harbor event)
      (watchedCreate ctx own slave) w) :
    (∀ sent ∈ sentBlocks w.harbor.log, ∃ k, sent.2 ∈ w.submitted k) ∧
      ∀ k, NothingOvertakes w k := by
  have inOrder := reached.invariant InOrder
    (fun w event w' inOrder patient seen => watch_inOrder w w' event inOrder patient seen)
    (create_inOrder ctx own slave)
  exact ⟨inOrder.known, inOrder.nothingOvertakes⟩

def crossing : List Event :=
  [.remote 0x1000003 0x2000005 (toName []) 10 1 [65], .remote 0x1000003 0 (toName [0x78]) 10 2 [66],
    .command [0x53, 0x20, 0x37, 0x20, 0x32] 9]

theorem crossing_in_order :
    ∃ w, Transition.run watch (watchedCreate (fun _ _ => true) 1 9)
        (crossing ++ [.data 7 [2], .command [0x4e, 0x20, 0x78] 0x2000005]) = some w ∧
      w.written 2 = [(7, 0), (7, 1)] ∧ NothingOvertakes w 2 := by
  refine ⟨_, rfl, by rfl, ?_⟩
  refine (nothing_overtakes (fun _ _ => true) 1 9 _ ?_).2 2
  refine Transition.Path.of_run (crossing ++ [.data 7 [2], .command [0x4e, 0x20, 0x78] 0x2000005])
    (.refl _) ?_ rfl
  refine ⟨trivial, trivial, ?_, trivial, ?_, trivial⟩
  · intro name binds
    contradiction
  · intro name _ status
    contradiction

theorem name_overtakes :
    ∃ w w', Transition.run watch (watchedCreate (fun _ _ => true) 1 9)
        (crossing ++ [.command [0x4e, 0x20, 0x78] 0x2000005]) = some w ∧
      (w.harbor.s 2).status = .handshake ∧ w.written 2 = [(7, 1)] ∧
      watch w (.data 7 [2]) = some w' ∧ w'.submitted 2 = [0, 1] ∧
      w'.written 2 = [(7, 1), (7, 0)] ∧ ¬NothingOvertakes w 2 ∧ ¬NothingOvertakes w' 2 := by
  refine ⟨_, _, rfl, by rfl, by rfl, rfl, by rfl, by rfl, ?_, ?_⟩
  · rintro ⟨silent, _⟩
    have written : ([(7, 1)] : List (Int × Nat)) = [] := silent rfl
    contradiction
  · rintro ⟨_, order, _⟩
    have reversed : [1, 0].Sublist [0, 1] := order
    exact absurd reversed (by decide)

end Pskynet.Harbor
