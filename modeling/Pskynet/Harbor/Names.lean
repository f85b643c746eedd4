import Pskynet.Harbor.Link

set_option autoImplicit false

namespace Pskynet.Harbor

open Server

-- A message for slot `k`: on its link, in its queue until the link is up, or gone with the
-- slot.
inductive Kept (h : Harbor) (k : Nat) (m : HarborMsg) : Prop where
  | onLink (linked : (h.s k).status ≠ .wait) (sent : written (h.s k).fd m ∈ h.log)
  | inQueue (early : (h.s k).status = .wait ∨ (h.s k).status = .handshake)
      (inside : m ∈ queued (h.s k).queue)
  | down (down : (h.s k).status = .down)

variable {grows : Nat → Prop}

theorem Move.kept {h h' : Harbor} {k : Nat} {m : HarborMsg} (move : Move grows h h')
    (kept : Kept h k m) : Kept h' k m := by
  cases kept with
  | onLink linked sent =>
    have still : (h'.s k).status ≠ .wait ∧ (h'.s k).fd = (h.s k).fd := by
      cases move.slots k with
      | same slot => simp [slot, linked]
      | grow _ _ _ _ slot => simp [slot, linked]
      | connect _ _ early => exact absurd early linked
      | flush fd _ early slot =>
        have same := (early.resolve_left linked).2
        simp [slot, same]
      | read _ after fd => exact ⟨by rcases after with h | h <;> simp [h], fd⟩
      | close _ slot => simp [slot]
    refine .onLink still.1 ?_
    rw [still.2]
    exact move.log.subset sent
  | inQueue early inside =>
    cases move.slots k with
    | same slot => exact .inQueue (slot ▸ early) (slot ▸ inside)
    | grow more _ queue _ slot contents =>
      refine .inQueue (by rwa [slot]) ?_
      rw [slot, contents]
      exact List.mem_append_left _ inside
    | connect _ _ _ slot =>
      refine .inQueue (.inr (by rw [slot])) ?_
      rw [slot]
      exact inside
    | flush fd _ _ slot sent =>
      refine .onLink (by simp [slot]) ?_
      rw [slot]
      exact sent m inside
    | read before => rcases before with h | h <;> simp [h] at early
    | close _ slot => exact .down (by rw [slot])
  | down down =>
    cases move.slots k with
    | same slot => exact .down (slot ▸ down)
    | grow _ _ _ early => simp [down] at early
    | connect _ _ early => simp [down] at early
    | flush _ _ early => simp [down] at early
    | read before => simp [down] at before
    | close _ slot => exact .down (by rw [slot])

theorem Moves.kept {h h' : Harbor} {k : Nat} {m : HarborMsg} (moves : Moves grows h h')
    (kept : Kept h k m) : Kept h' k m := by
  induction moves with
  | refl => exact kept
  | tail _ move ih => exact move.kept ih

theorem path_moves {allowed : Harbor → Event → Prop} {h h' : Harbor}
    (path : Transition.Path mainloop allowed h h') (wired : Wired h) :
    Moves (fun _ => True) h h' := by
  induction path with
  | refl => exact .refl
  | tail event _ _ taken ih =>
    refine ih.trans ?_
    exact mainloop_moved _ _ event (ih.wired wired) taken

theorem reached_unaddressed {allowed : Harbor → Event → Prop} {ctx : List Effect → UInt32 → Bool}
    {id slave : UInt32} {h : Harbor}
    (reached : Transition.Path mainloop allowed (harborCreate ctx id slave) h) (name : Name) :
    ∀ m ∈ waiting h name, Unaddressed m := by
  refine (path_moves reached (create_wired ctx id slave)).names ?_ name
  intro other m inside
  contradiction

-- The message as the service under `handle` should get it: its own type above the low 24
-- bits of the handle.
structure HarborMsg.Addressed (m m' : HarborMsg) (handle : UInt32) : Prop where
  buffer : m'.buffer = m.buffer
  source : m'.header.source = m.header.source
  session : m'.header.session = m.header.session
  low : m'.header.destination &&& handleMask = handle &&& handleMask
  type : m'.header.destination >>> 24 = m.header.destination >>> 24

theorem HarborMsg.addressed_complete (m : HarborMsg) (handle : UInt32) (clean : Unaddressed m) :
    m.Addressed (m.complete handle) handle := by
  have masked : (handle &&& handleMask).toNat = handle.toNat % 2 ^ 24 :=
    Words.toNat_and_mask 24 handle handleMask (by decide)
  have aligned : m.header.destination.toNat % 2 ^ 24 = 0 := by
    rw [← Words.toNat_and_mask 24 _ handleMask (by decide), clean]
    rfl
  have joined : (m.header.destination ||| handle &&& handleMask).toNat =
      m.header.destination.toNat + handle.toNat % 2 ^ 24 := by
    rw [Words.toNat_or_disjoint 24 _ _ (Nat.dvd_of_mod_eq_zero aligned) (by omega), masked]
  refine ⟨rfl, rfl, rfl, ?_, ?_⟩
  · change (m.header.destination ||| handle &&& handleMask) &&& handleMask = _
    rw [← UInt32.toNat_inj, Words.toNat_and_mask 24 _ handleMask (by decide), joined, masked]
    omega
  · change (m.header.destination ||| handle &&& handleMask) >>> 24 = _
    have high (n : UInt32) : (n >>> 24).toNat = n.toNat / 2 ^ 24 :=
      Words.toNat_shiftRight_lt n 24 (by decide)
    rw [← UInt32.toNat_inj, high, high, joined]
    omega

theorem HarborMsg.addressed_self (m : HarborMsg) (handle : UInt32) (clean : Unaddressed m)
    (zero : handle &&& handleMask = 0) : m.Addressed m handle :=
  ⟨rfl, rfl, rfl, clean.trans zero.symm, rfl⟩

theorem updateName_kept (h h' : Harbor) (name : Name) (handle : UInt32) (wired : Wired h)
    (clean : ∀ m ∈ waiting h name, Unaddressed m)
    (linkedFirst : (h.s (handle >>> 24).toNat).fd ≠ 0 ∨ handle &&& handleMask = 0)
    (done : updateName h name handle = some h') (m : HarborMsg) (inside : m ∈ waiting h name) :
    ∃ m', m.Addressed m' handle ∧ Kept h' (handle >>> 24).toNat m' := by
  obtain ⟨_, _, ⟨none, _, _⟩ | ⟨_, bound⟩⟩ := updateName_cases h h' name handle done
  · rw [none] at inside
    contradiction
  · cases bound with
    | dropped free down =>
      exact absurd free ((wired _).linked (by rw [down]; decide))
    | moved free queue contents _ slots =>
      have zero := linkedFirst.resolve_left (not_not.mpr free)
      refine ⟨m, m.addressed_self handle (clean m inside) zero, .inQueue (.inl ?_) ?_⟩
      · rw [slots, Function.update_self]
        by_contra opened
        exact (wired _).linked opened free
      · rw [slots, Function.update_self, contents]
        exact List.mem_append_right _ inside
    | sent linked log slots =>
      refine ⟨m.complete handle, m.addressed_complete handle (clean m inside), .onLink ?_ ?_⟩
      · rw [slots]
        exact fun wait => linked ((wired _).idle wait)
      · rw [slots, log]
        exact List.mem_append_right _ (List.mem_map_of_mem inside)

def Slave.Usable (s : Slave) : Prop := s.status = .header ∨ s.status = .content

theorem Kept.put_on_link {h : Harbor} {k : Nat} {m : HarborMsg} (kept : Kept h k m)
    (usable : (h.s k).Usable) : written (h.s k).fd m ∈ h.log := by
  cases kept with
  | onLink _ sent => exact sent
  | inQueue early => rcases usable with up | up <;> simp [up] at early
  | down down => rcases usable with up | up <;> simp [up] at down

theorem named_messages_reach {before after : Harbor → Event → Prop}
    (ctx : List Effect → UInt32 → Bool) (own slave : UInt32) (h bound h' : Harbor)
    (reached : Transition.Path mainloop before (harborCreate ctx own slave) h)
    (msg : List UInt8) (source : UInt32) (name : Name) (binds : bindsName msg = some name)
    (linkedFirst : waiting h name ≠ [] →
      (h.s (source >>> 24).toNat).fd ≠ 0 ∨ source &&& handleMask = 0)
    (bind : mainloop h (.command msg source) = some bound)
    (later : Transition.Path mainloop after bound h') :
    ∀ m ∈ waiting h name, ∃ m', m.Addressed m' source ∧ Kept h' (source >>> 24).toNat m' ∧
      ((h'.s (source >>> 24).toNat).Usable →
        written (h'.s (source >>> 24).toNat).fd m' ∈ h'.log) := by
  intro m inside
  have wired := reached_wired reached
  have moved := mainloop_moved h bound _ wired bind
  rw [mainloop, harborCommand_binds h msg source name binds] at bind
  obtain ⟨m', addressed, kept⟩ := updateName_kept h bound name source wired
    (reached_unaddressed reached name) (linkedFirst (List.ne_nil_of_mem inside)) bind m inside
  have still : Kept h' (source >>> 24).toNat m' :=
    (path_moves later (moved.wired wired)).kept kept
  exact ⟨m', addressed, still, still.put_on_link⟩

def early : Harbor :=
  (mainloop (harborCreate (fun _ _ => true) 1 9)
    (.remote 0x1000003 0 (toName [0x78]) 10 1 [65])).getD (harborCreate (fun _ _ => true) 1 9)

def earlyMsg : HarborMsg where
  header := { source := 0x1000003, destination := 0xa000000, session := 1 }
  buffer := { id := 0, bytes := [65] }

theorem early_path : Transition.Path mainloop (fun _ _ => True) (harborCreate (fun _ _ => true) 1 9)
    early :=
  .tail (.remote 0x1000003 0 (toName [0x78]) 10 1 [65]) (.refl _) trivial rfl

theorem early_waiting : waiting early (toName [0x78]) = [earlyMsg] := by rfl

def linkedEarly : Harbor := (mainloop early (.command [0x41, 0x20, 0x37, 0x20, 0x32] 9)).getD early

theorem linked_name_reaches :
    ∃ bound, mainloop linkedEarly (.command [0x4e, 0x20, 0x78] 0x2000005) = some bound ∧
      ∃ m', earlyMsg.Addressed m' 0x2000005 ∧ written 7 m' ∈ bound.log := by
  have reached : Transition.Path mainloop (fun _ _ => True)
      (harborCreate (fun _ _ => true) 1 9) linkedEarly :=
    .tail (.command [0x41, 0x20, 0x37, 0x20, 0x32] 9) early_path trivial rfl
  have waits : waiting linkedEarly (toName [0x78]) = [earlyMsg] := by rfl
  refine ⟨_, rfl, ?_⟩
  have later (h : Harbor) : Transition.Path mainloop (fun _ _ => True) h h := .refl h
  obtain ⟨m', addressed, _, sent⟩ := named_messages_reach (fun _ _ => true) 1 9 linkedEarly _ _
    reached [0x4e, 0x20, 0x78] 0x2000005 (toName [0x78]) rfl (fun _ => .inl (by decide)) rfl
    (later _) earlyMsg (by rw [waits]; simp)
  exact ⟨m', addressed, sent (.inl rfl)⟩

theorem header_of_frame (m m' : HarborMsg) (same : m'.buffer = m.buffer) (frame : m'.frame = m.frame) :
    m'.header = m.header := by
  simp only [HarborMsg.frame, same, List.append_cancel_left_eq] at frame
  rw [← messageToHeader_headerToMessage m'.header, frame, messageToHeader_headerToMessage]

theorem early_name_misaddressed :
    ∃ bound h', mainloop early (.command [0x4e, 0x20, 0x78] 0x2000005) = some bound ∧
      mainloop bound (.command [0x41, 0x20, 0x37, 0x20, 0x32] 9) = some h' ∧
      earlyMsg ∈ waiting early (toName [0x78]) ∧ (h'.s 2).Usable ∧ (h'.s 2).fd = 7 ∧
      ¬∃ m', earlyMsg.Addressed m' 0x2000005 ∧ written 7 m' ∈ h'.log := by
  refine ⟨_, _, rfl, rfl, by rw [early_waiting]; simp, .inl rfl, rfl, ?_⟩
  rintro ⟨m', addressed, sent⟩
  have log : written 7 m' ∈ [Effect.send 0 9 0 0 [0x51, 0x20, 0x78] none, .start 7, .write 7 [1] none,
    written 7 earlyMsg] := sent
  have frame : m'.frame = earlyMsg.frame := by
    simpa [written, addressed.buffer] using log
  have header := header_of_frame earlyMsg m' addressed.buffer frame
  have low := addressed.low
  rw [header] at low
  contradiction

theorem Moves.queue_empty {h h' : Harbor} (moves : Moves grows h h') (k : Nat) (fixed : ¬grows k)
    (empty : queued (h.s k).queue = []) : queued (h'.s k).queue = [] := by
  induction moves with
  | refl => exact empty
  | tail _ move ih =>
    cases move.slots k with
    | same slot => rw [slot, ih]
    | grow more allowed queue _ slot contents =>
      have none : more = [] := by
        by_contra some
        exact fixed (allowed some)
      rw [slot, contents, ih, none]
      rfl
    | connect _ _ _ slot => rw [slot, ih]
    | flush _ _ _ slot => rw [slot, queued_none]
    | read _ _ _ queue => rw [queue, ih]
    | close _ slot => rw [slot, queued_none]

theorem value_hashWrite (hash : HashMap) (name : Name) (value : UInt32) (queue : Option Queue) :
    (hashSearch (hashWrite hash name value queue) name).map (·.value) =
      (hashSearch hash name).map fun _ => value := by
  rw [search_hashWrite, Option.map_map]
  simp only [Function.comp_def, if_true]

theorem isSome_hashNode (hash : HashMap) (name : Name) :
    (hashSearch (hashNode hash name) name).isSome := by
  unfold hashNode
  split_ifs with missing
  · rw [hashSearch_hashInsert, if_pos rfl]
    rfl
  · simpa [Option.isSome_iff_ne_none] using missing

theorem hashNode_known (hash : HashMap) (name : Name) (known : (hashSearch hash name).isSome) :
    hashNode hash name = hash := by
  rw [hashNode, if_neg]
  simpa [Option.isSome_iff_ne_none] using known

theorem updateName_value (h h' : Harbor) (name : Name) (handle : UInt32)
    (done : updateName h name handle = some h') :
    (hashSearch h'.map name).map (·.value) = some handle := by
  have bound (hash : HashMap) (queue : Option Queue) (some : (hashSearch hash name).isSome) :
      (hashSearch (hashWrite hash name handle queue) name).map (·.value) = .some handle := by
    obtain ⟨node, found⟩ := Option.isSome_iff_exists.mp some
    rw [value_hashWrite, found]
    rfl
  have made := isSome_hashNode h.map name
  unfold updateName at done
  simp only at done
  cases queue : (hashSearch (hashNode h.map name) name).bind (·.queue) with
  | none =>
    simp only [queue, Option.some.injEq] at done
    rw [← done]
    exact bound _ _ made
  | some queue' =>
    simp only [queue, Option.map_eq_some_iff, Prod.exists] at done
    obtain ⟨middle, left, dispatched, rfl⟩ := done
    obtain ⟨_, _, map, _⟩ := dispatchNameQueue_bound _ middle name handle queue' left dispatched
    simp only [releaseQueue_eq, map]
    refine bound _ _ ?_
    have value := bound (hashNode h.map name) (some queue') made
    rw [← Option.isSome_map, value]
    rfl

-- A queued message as `remote_send_handle` sends it to a service of its own harbor.
def localSend (handle : UInt32) (m : HarborMsg) : Effect :=
  .send m.header.source handle (m.header.destination >>> 24 ||| ptypeTagDontcopy) m.header.session
    m.buffer.bytes (some m.buffer.id)

def LocalFirst (h : Harbor) : Event → Prop
  | .command msg source =>
      ∀ name, bindsName msg = some name → source >>> 24 = h.id → waiting h name = []
  | _ => True

theorem own_queue_empty {ctx : List Effect → UInt32 → Bool} {own slave : UInt32} {h : Harbor}
    (reached : Transition.Path mainloop LocalFirst (harborCreate ctx own slave) h) :
    h.id = own ∧ queued (h.s own.toNat).queue = [] := by
  have all : Wired h ∧ h.id = own ∧ queued (h.s own.toNat).queue = [] := by
    refine reached.invariant (fun h => Wired h ∧ h.id = own ∧ queued (h.s own.toNat).queue = [])
      ?_ ⟨create_wired ctx own slave, rfl, rfl⟩
    rintro h event h' ⟨wired, same, empty⟩ allow taken
    have moves : Moves (· ≠ own.toNat) h h' := by
      refine mainloop_moves h h' event wired ?_ ?_ taken
      · intro k other
        rw [same, ne_eq, ← UInt32.toNat_inj] at other
        exact other
      · rintro msg source name rfl binds some here
        rw [UInt32.toNat_inj, ← same] at here
        exact some (allow name binds here)
    exact ⟨moves.wired wired, moves.own.trans same, moves.queue_empty _ (not_not.mpr rfl) empty⟩
  exact all.2

theorem Bound.not_local {h h' : Harbor} {handle : UInt32} {messages : List HarborMsg}
    (bound : Bound h h' handle messages)
    (log : h'.log = h.log ++ messages.map (localSend handle)) : messages = [] := by
  cases bound with
  | dropped _ _ log' =>
    obtain ⟨text, log'⟩ := log'
    rw [log', List.append_cancel_left_eq] at log
    have size := congrArg List.length log
    simp at size
  | moved _ _ _ log' =>
    rw [log'] at log
    simpa using log
  | sent _ log' =>
    rw [log', List.append_cancel_left_eq] at log
    cases messages with
    | nil => rfl
    | cons m messages => simp [written, localSend] at log

theorem local_names_served (ctx : List Effect → UInt32 → Bool) (own slave : UInt32) (h : Harbor)
    (reached : Transition.Path mainloop LocalFirst (harborCreate ctx own slave) h) :
    queued (h.s own.toNat).queue = [] ∧
      ∀ msg (source : UInt32) name bound, bindsName msg = some name → source >>> 24 = own →
        source ≠ 0 →
        mainloop h (.command msg source) = some bound →
        ((bound.log = h.log ++ (waiting h name).map (localSend source) ∧
          queued (bound.s own.toNat).queue = []) ↔ waiting h name = []) ∧
        ∀ sender type session message,
          ∃ h', mainloop bound (.remote sender 0 name type session message) = some h' ∧
            h'.log = bound.log ++ [.send sender source (type.toUInt32 ||| ptypeTagDontcopy) session
              message (some bound.buffers)] := by
  obtain ⟨same, empty⟩ := own_queue_empty reached
  refine ⟨empty, ?_⟩
  intro msg source name bound binds here handle bind
  rw [mainloop, harborCommand_binds h msg source name binds] at bind
  have result := updateName_cases h bound name source bind
  refine ⟨⟨?_, ?_⟩, ?_⟩
  · rintro ⟨log, _⟩
    obtain ⟨_, _, ⟨none, _⟩ | ⟨_, bound⟩⟩ := result
    · exact none
    · exact bound.not_local log
  · intro none
    have moves : Moves (· ≠ own.toNat) h bound :=
      updateName_moves h bound name source (reached_wired reached) (fun some => absurd none some) bind
    refine ⟨?_, moves.queue_empty _ (not_not.mpr rfl) empty⟩
    rw [none, List.map_nil, List.append_nil]
    obtain ⟨_, _, ⟨_, log, _⟩ | ⟨_, bound⟩⟩ := result
    · exact log
    · cases bound with
      | dropped free down =>
        exact absurd free ((reached_wired reached _).linked (by rw [down]; decide))
      | moved _ _ _ log => exact log
      | sent _ log => rw [log, none, List.map_nil, List.append_nil]
  · intro sender type session message
    have value := updateName_value h bound name source bind
    have known : (hashSearch bound.map name).isSome := by
      rw [← Option.isSome_map, value]
      rfl
    have harbor : source >>> 24 = bound.id := by rw [result.1, same, here]
    refine ⟨_, rfl, ?_⟩
    simp only [remoteSendName, hashNode_known _ _ known, value, Option.getD_some, if_true, handle,
      if_false, remoteSendHandle, harbor]
    rfl

theorem fresh_name_served :
    ∃ bound h', mainloop early (.command [0x4e, 0x20, 0x79] 0x1000005) = some bound ∧
      bound.log = early.log ∧ queued (bound.s 1).queue = [] ∧
      mainloop bound (.remote 0x1000003 0 (toName [0x79]) 10 1 [65]) = some h' ∧
      h'.log = bound.log ++ [.send 0x1000003 0x1000005 0x1000a 1 [65] (some 1)] := by
  have reached : Transition.Path mainloop LocalFirst (harborCreate (fun _ _ => true) 1 9) early :=
    .tail (.remote 0x1000003 0 (toName [0x78]) 10 1 [65]) (.refl _) trivial rfl
  have served := (local_names_served (fun _ _ => true) 1 9 early reached).2 [0x4e, 0x20, 0x79]
    0x1000005 (toName [0x79]) _ rfl (by decide) (by decide) rfl
  have none : waiting early (toName [0x79]) = [] := by rfl
  obtain ⟨log, empty⟩ := served.1.mpr none
  obtain ⟨h', sent, later⟩ := served.2 0x1000003 10 1 [65]
  rw [none, List.map_nil, List.append_nil] at log
  exact ⟨_, h', rfl, log, empty, sent, later⟩

theorem early_name_stranded :
    ∃ bound, mainloop early (.command [0x4e, 0x20, 0x78] 0x1000005) = some bound ∧
      waiting early (toName [0x78]) = [earlyMsg] ∧ localSend 0x1000005 earlyMsg ∉ bound.log ∧
      queued (bound.s 1).queue = [earlyMsg] := by
  refine ⟨_, rfl, early_waiting, ?_, by rfl⟩
  intro sent
  have log : localSend 0x1000005 earlyMsg ∈ [Effect.send 0 9 0 0 [0x51, 0x20, 0x78] none] := sent
  simp [localSend, earlyMsg] at log

end Pskynet.Harbor
