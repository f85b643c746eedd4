import Pskynet.Socketchannel.Attached

set_option autoImplicit false

namespace Pskynet.Socketchannel

open Channel Sockets

variable {S D : Type} [DecidableEq S]

def LeavesNone (mode : Mode) (s : Channel S D) : List (Chunk S D) → Prop
  | .last answer :: _ =>
      match mode, answer.session with
      | .order, _ => s.thread = []
      | .session, some session => s.sessions.filter (·.1 ≠ session) = []
      | .session, none => True
  | _ => True

-- On a connection that was given up a reply is read, `socket.block` ends with data, or the
-- dispatch coroutine starts, only when no other request waits.
def Timely (mode : Mode) (s : Channel S D) : Phase → Prop
  | .forked => s.waiting = []
  | .read j _ | .reading j _ => LeavesNone mode s (s.net.pool j).buffer
  | .blocking j => (s.net.pool j).connected = true → s.waiting = []
  | .loop | .closing _ _ _ | .ended => True

def Clean (mode : Mode) (s : Channel S D) (action : Action S D) : Prop :=
  Newest s action ∧
    match action with
    | .request (some session) => session ∉ s.sessions.map Prod.fst
    | .start k | .loop k | .resume (.dispatch k) => k ∈ s.given → Timely mode s (s.dispatchers k)
    | _ => True

-- When the dispatch coroutine of a connection that was given up has ended, each request of the
-- connection has its reply or a socket error, and none is in `__thread`.
structure Released (mode : Mode) (s : Channel S D) : Prop where
  resumed : ∀ k ∈ s.given, s.dispatchers k = .ended →
    ∀ (co : Nat) (response : Option S), s.registered[co]? = some (k, response) →
      co ∉ s.waiting ∧ ∃ result, (co, result) ∈ s.delivered ∧ result.connection = k ∧
        (mode = .session → ∀ answer, result = .reply k answer → answer.session = response)
  order : mode = .order → ∀ k, s.served k <+: s.asked k

structure Left (s : Channel S D) : Prop where
  given : ∀ k ∈ s.given, k < s.connections ∧ s.sock ≠ some k
  replaced : s.replaced = []
  clear : ∀ k, k + 1 = s.connections → k ∈ s.given →
    s.dispatchers k = .loop ∨ s.dispatchers k = .ended → s.waiting = []

variable {mode : Mode} {s t : Channel S D} {k j : Nat} {hand : Option (Nat × Option Nat)}

omit [DecidableEq S] in
theorem start_left : Left (Channel.start : Channel S D) where
  given := fun _ inside => by cases inside
  replaced := rfl
  clear := fun _ is => by cases is

omit [DecidableEq S] in
theorem Left.released (left : Left s) (stable : Stable mode s) : Released mode s where
  resumed := by
    intro k given ended co response found
    have held := stable.core.held
    have bound := (left.given k given).1
    have delivered : co ∈ s.delivered.map Prod.fst := by
      rcases held.complete co k response found with done | gone | ⟨on, waits⟩ | ⟨_, popped⟩
      · exact done
      · rw [left.replaced] at gone
        cases gone
      · have here : s.connections - 1 = k := by omega
        rw [left.clear k on given (.inr ended), Channel.hand, here, ended] at waits
        cases waits
      · rw [ended] at popped
        cases popped
    refine ⟨?_, ?_⟩
    · intro waits
      exact List.disjoint_of_nodup_append held.once delivered (List.mem_append_right _ waits)
    · obtain ⟨⟨co, result⟩, inside, rfl⟩ := List.mem_map.mp delivered
      obtain ⟨other, there⟩ := held.fits co result inside
      have same := Option.some.inj (there.symm.trans found)
      refine ⟨result, inside, congrArg Prod.fst same, ?_⟩
      rintro is answer rfl
      have bears := held.bears is co _ answer inside
      exact congrArg Prod.snd (Option.some.inj (bears.symm.trans found))
  order := stable.core.held.served

def Clear (t : Channel S D) (k : Nat) : Prop :=
  t.dispatchers k = .loop ∨ t.dispatchers k = .ended → t.waiting = []

omit [DecidableEq S] in
theorem clear_goOn {phase : Phase} (free : phase = .loop ∨ phase = .ended → s.waiting = []) :
    Clear (s.goOn k phase) k := by
  intro is
  have here : (s.goOn k phase).dispatchers k = phase := Function.update_self ..
  rw [here] at is
  exact free is

omit [DecidableEq S] in
theorem clear_yield {phase : Phase} (free : phase = .loop ∨ phase = .ended → s.waiting = []) :
    Clear (s.yield_ k phase) k := by
  intro is
  have here : (s.yield_ k phase).dispatchers k = phase := Function.update_self ..
  rw [here] at is
  exact free is

omit [DecidableEq S] in
theorem clear_afterFailure (order : mode = .order → s.sessions = [])
    (session : mode = .session → s.thread = []) : Clear (s.afterFailure mode k j hand) k := by
  refine clear_goOn fun _ => ?_
  cases mode with
  | order => simp [Channel.wakeupAll, Channel.deliver, Channel.waiting, order rfl]
  | session => simp [Channel.wakeupAll, Channel.deliver, Channel.waiting, session rfl]

omit [DecidableEq S] in
theorem clear_fail (held : Held mode s hand) : Clear (s.fail mode k j hand) k := by
  have session := fun is => (held.session is).1
  unfold Channel.fail
  split
  · exact clear_afterFailure held.order session
  · simp only
    split_ifs
    · exact clear_afterFailure held.order session
    · refine clear_yield ?_
      rintro (is | is)
      · cases is
      · cases is

theorem clear_answered (held : Held mode s hand) {answer : Answer S D} {rest : List (Chunk S D)}
    (none_ : LeavesNone mode s (.last answer :: rest)) :
    Clear (s.answered mode k j hand answer) k := by
  cases mode with
  | order =>
    refine clear_goOn fun _ => ?_
    have free : s.thread = [] := none_
    simp [Channel.deliver, Channel.waiting, free, held.order rfl]
  | session =>
    unfold Channel.answered
    simp only
    split
    · exact clear_fail held
    next session is =>
      refine clear_goOn fun _ => ?_
      simp only [LeavesNone, is] at none_
      simp only [Channel.deliver, Channel.waiting, (held.session rfl).1, none_]
      rfl

theorem clear_afterRead (held : Held mode s hand) {result : Read S D}
    (none_ : ∀ chunk, result = .chunk chunk → ∃ rest, LeavesNone mode s (chunk :: rest)) :
    Clear (s.afterRead mode k j hand result) k := by
  cases result with
  | chunk chunk =>
    cases chunk with
    | part =>
      refine clear_goOn ?_
      rintro (is | is)
      · cases is
      · cases is
    | last answer =>
      obtain ⟨rest, none_⟩ := none_ _ rfl
      exact clear_answered held none_
    | bad => exact clear_fail held
  | failed => exact clear_fail held
  | suspended =>
    refine clear_yield ?_
    rintro (is | is)
    · cases is
    · cases is

omit [DecidableEq S] in
theorem read_chunk {n : Sockets S D} {chunk : Chunk S D} (is : (n.read j k).2 = .chunk chunk) :
    ∃ rest, (n.pool j).buffer = chunk :: rest := by
  by_cases pooled : (n.pool j).pooled = true
  · cases buffer : (n.pool j).buffer with
    | cons first rest =>
      simp only [Sockets.read, pooled, if_true, buffer, Read.chunk.injEq] at is
      exact ⟨rest, by rw [is]⟩
    | nil =>
      simp only [Sockets.read, pooled, if_true, buffer] at is
      split_ifs at is
      cases co : (n.pool j).co with
      | some other => simp [co] at is
      | none => simp [co] at is
  · simp [Sockets.read, pooled] at is

theorem clear_read (held : Held mode s hand) (none_ : LeavesNone mode s (s.net.pool j).buffer) :
    Clear (s.read mode k j hand) k := by
  refine clear_afterRead (s := { s with net := (s.net.read j k).1 }) ?_ ?_
  · exact held.agree ⟨rfl, rfl, rfl, rfl, rfl, rfl, rfl, rfl, fun _ _ => rfl⟩ held.shut
      fun _ is => is
  · intro chunk is
    obtain ⟨rest, buffer⟩ := read_chunk is
    exact ⟨rest, buffer ▸ none_⟩

theorem clear_resumeRead {n : Sockets S D} (held : Held mode s hand)
    (none_ : LeavesNone mode s (n.pool j).buffer) :
    Clear (Channel.afterRead mode { s with net := (n.resumeRead j).1 } k j hand (n.resumeRead j).2)
      k := by
  refine clear_afterRead (s := { s with net := (n.resumeRead j).1 }) ?_ ?_
  · exact held.agree ⟨rfl, rfl, rfl, rfl, rfl, rfl, rfl, rfl, fun _ _ => rfl⟩ held.shut
      fun _ is => is
  · intro chunk is
    unfold Sockets.resumeRead at is
    simp only [wakeupClosing_pool] at is
    split at is
    next first rest buffer =>
      cases is
      exact ⟨rest, buffer ▸ none_⟩
    next => cases is

omit [DecidableEq S] in
theorem clear_afterBlock {result : Block} (held : Held mode s none)
    (free : result = .returned true → s.waiting = []) (runs : result ≠ .raised) :
    Clear (s.afterBlock mode k j result) k := by
  cases result with
  | returned connected =>
    cases connected with
    | true => exact clear_goOn fun _ => free rfl
    | false => exact clear_fail held
  | raised => exact absurd rfl runs
  | suspended =>
    refine clear_yield ?_
    rintro (is | is)
    · cases is
    · cases is

-- The parts of the state of which `Left` speaks, but for the newest dispatch coroutine.
structure Frame (s t : Channel S D) : Prop where
  given : t.given = s.given
  replaced : t.replaced = s.replaced
  connections : t.connections = s.connections
  sock : ∀ k, t.sock = some k → s.sock = some k

omit [DecidableEq S] in
theorem Frame.trans {u : Channel S D} (first : Frame s t) (second : Frame t u) : Frame s u where
  given := second.given.trans first.given
  replaced := second.replaced.trans first.replaced
  connections := second.connections.trans first.connections
  sock := fun k there => first.sock k (second.sock k there)

omit [DecidableEq S] in
theorem frame_afterFailure : Frame s (s.afterFailure mode k j hand) := by
  cases mode <;> exact ⟨rfl, rfl, rfl, fun _ there => there⟩

omit [DecidableEq S] in
theorem frame_fail : Frame s (s.fail mode k j hand) := by
  unfold Channel.fail
  split
  · exact frame_afterFailure
  next i there =>
    have shut : Frame s { s with
        sock := none, net := (s.net.close i (.dispatch k)).1, shut := s.shut ++ [(j, i)] } :=
      ⟨rfl, rfl, rfl, fun _ there => by cases there⟩
    simp only
    split_ifs
    · exact shut.trans frame_afterFailure
    · exact ⟨rfl, rfl, rfl, fun _ there => by cases there⟩

theorem frame_answered {answer : Answer S D} : Frame s (s.answered mode k j hand answer) := by
  cases mode with
  | order => exact ⟨rfl, rfl, rfl, fun _ there => there⟩
  | session =>
    unfold Channel.answered
    simp only
    split
    · exact frame_fail
    · exact ⟨rfl, rfl, rfl, fun _ there => there⟩

theorem frame_afterRead {result : Read S D} : Frame s (s.afterRead mode k j hand result) := by
  cases result with
  | chunk chunk =>
    cases chunk with
    | part => exact ⟨rfl, rfl, rfl, fun _ there => there⟩
    | last answer => exact frame_answered
    | bad => exact frame_fail
  | failed => exact frame_fail
  | suspended => exact ⟨rfl, rfl, rfl, fun _ there => there⟩

omit [DecidableEq S] in
theorem frame_afterBlock {result : Block} : Frame s (s.afterBlock mode k j result) := by
  cases result with
  | returned connected =>
    cases connected with
    | true => exact ⟨rfl, rfl, rfl, fun _ there => there⟩
    | false => exact frame_fail
  | raised => exact ⟨rfl, rfl, rfl, fun _ there => there⟩
  | suspended => exact ⟨rfl, rfl, rfl, fun _ there => there⟩

omit [DecidableEq S] in
theorem frame_net (n : Sockets S D) : Frame s { s with net := n } :=
  ⟨rfl, rfl, rfl, fun _ there => there⟩

theorem frame_read : Frame s (s.read mode k j hand) :=
  (frame_net _).trans frame_afterRead

theorem frame_loop : Frame s (s.loop mode k) := by
  unfold Channel.loop
  split
  · exact ⟨rfl, rfl, rfl, fun _ there => there⟩
  · cases mode with
    | session => exact frame_read
    | order =>
      have popped : Frame s { s with request := s.request.tail, thread := s.thread.tail } :=
        ⟨rfl, rfl, rfl, fun _ there => there⟩
      simp only
      split
      · exact popped.trans frame_read
      · exact (popped.trans (frame_net _)).trans frame_afterBlock

theorem frame_resume : Frame s (s.resume mode k) := by
  unfold Channel.resume
  split
  · exact (frame_net _).trans frame_afterRead
  · exact (frame_net _).trans frame_afterBlock
  · exact (frame_net _).trans frame_afterFailure
  · exact ⟨rfl, rfl, rfl, fun _ there => there⟩

omit [DecidableEq S] in
theorem Left.dispatched (left : Left s) (frame : Frame s t) (newest : k + 1 = s.connections)
    (clear : k ∈ s.given → Clear t k) : Left t where
  given := by
    rw [frame.given, frame.connections]
    exact fun i inside => ⟨(left.given i inside).1,
      fun there => (left.given i inside).2 (frame.sock i there)⟩
  replaced := frame.replaced.trans left.replaced
  clear := by
    intro i on given
    have here : i = k := by
      have := frame.connections
      omega
    subst here
    exact clear (frame.given ▸ given)

theorem Left.turned (left : Left s) (stable : Stable mode s) (running : s.running = some k)
    (timely : k ∈ s.given → Timely mode s (s.dispatchers k)) {phase : Phase}
    (is : s.dispatchers k = phase) :
    (phase = .loop → Left (s.loop mode k)) ∧
      ∀ j popped, phase = .read j popped → Left (s.read mode k j popped) := by
  have newest := stable.core.running k running
  have here : s.connections - 1 = k := by omega
  have held := stable.core.held
  rw [Channel.hand, here, is] at held
  rw [is] at timely
  constructor
  · rintro rfl
    refine left.dispatched frame_loop newest ?_
    intro given
    have closed : s.sock = none := by
      cases sock : s.sock with
      | none => rfl
      | some i =>
        have := stable.core.sock i sock
        have same : i = k := by omega
        exact absurd (same ▸ sock) (left.given k given).2
    unfold Channel.loop
    split
    · exact clear_yield fun _ => left.clear k newest given (.inl is)
    next j there => cases closed.symm.trans there
  · rintro j popped rfl
    exact left.dispatched frame_read newest fun given => clear_read held (timely given)

theorem Left.resumed (left : Left s) (stable : Stable mode s) (newest : k + 1 = s.connections)
    (timely : k ∈ s.given → Timely mode s (s.dispatchers k)) (awake : List Coroutine) :
    Left (Channel.resume mode { s with net := { s.net with awake := awake } } k) := by
  have here : s.connections - 1 = k := by omega
  have held := stable.core.held
  rw [Channel.hand, here] at held
  refine left.dispatched ((frame_net _).trans frame_resume) newest ?_
  intro given
  have timely := timely given
  unfold Channel.resume
  simp only
  cases phase : s.dispatchers k with
  | reading j popped =>
    rw [phase] at held timely
    exact clear_resumeRead (n := { s.net with awake := awake }) held timely
  | blocking j =>
    rw [phase] at held timely
    refine clear_afterBlock ?_ ?_ ?_
    · exact held.agree ⟨rfl, rfl, rfl, rfl, rfl, rfl, rfl, rfl, fun _ _ => rfl⟩ held.shut
        fun _ is => is
    · intro is
      simp only [resumeBlock, Block.returned.injEq] at is
      exact timely is
    · intro is
      cases is
  | closing i j popped =>
    rw [phase] at held
    exact clear_afterFailure held.order fun is => (held.session is).1
  | forked =>
    intro is
    simp only [phase] at is
    rcases is with is | is <;> cases is
  | loop => exact fun _ => left.clear k newest given (.inl phase)
  | read j popped =>
    intro is
    simp only [phase] at is
    rcases is with is | is <;> cases is
  | ended => exact fun _ => left.clear k newest given (.inr phase)

omit [DecidableEq S] in
theorem Left.fewer (left : Left s) (frame : Frame s t) (dispatchers : t.dispatchers = s.dispatchers)
    (waiting : s.waiting = [] → t.waiting = []) : Left t where
  given := by
    rw [frame.given, frame.connections]
    exact fun i inside => ⟨(left.given i inside).1,
      fun there => (left.given i inside).2 (frame.sock i there)⟩
  replaced := frame.replaced.trans left.replaced
  clear := by
    rw [frame.given, frame.connections, dispatchers]
    exact fun k on given phase => waiting (left.clear k on given phase)

omit [DecidableEq S] in
theorem frame_afterClose (mode : Mode) (s : Channel S D) (j : Nat) (after : After) :
    Frame s (s.afterClose mode j after) := by
  cases after <;> cases mode <;> exact ⟨rfl, rfl, rfl, fun _ there => there⟩

omit [DecidableEq S] in
theorem frame_closeChannelSocket (mode : Mode) (s : Channel S D) (after : After) :
    Frame s (s.closeChannelSocket mode after) := by
  unfold Channel.closeChannelSocket
  split
  · exact frame_afterClose mode s 0 after
  next j there =>
    have shut : Frame s { s with sock := none, net := (s.net.close j (.closer j)).1 } :=
      ⟨rfl, rfl, rfl, fun _ there => by cases there⟩
    simp only
    split_ifs
    · exact shut.trans (frame_afterClose mode _ j after)
    · exact ⟨rfl, rfl, rfl, fun _ there => by cases there⟩

omit [DecidableEq S] in
theorem Left.giveUp (left : Left s) (stable : Stable mode s) (wired : Wired s)
    (stopped : s.running = none) : Left (s.giveUp mode) := by
  have frame := frame_closeChannelSocket mode s .nothing
  obtain ⟨dispatchers, connections⟩ := closeChannelSocket_dispatchers mode s .nothing
  have waiting : (s.closeChannelSocket mode .nothing).waiting = s.waiting :=
    closeChannelSocket_waiting mode s (by simp)
  have closed := closeChannelSocket_sock mode s .nothing
  refine ⟨?_, frame.replaced.trans left.replaced, ?_⟩
  · intro k inside
    refine ⟨?_, ?_⟩
    · have bound : k < s.connections := by
        rcases List.mem_append.mp inside with old | new_
        · exact (left.given k old).1
        · exact stable.core.sock k (Option.mem_toList.mp new_) ▸ Nat.lt_succ_self k
      exact connections.symm ▸ bound
    · intro there
      cases closed.symm.trans there
  · intro k on inside phase
    have on : k + 1 = s.connections := connections ▸ on
    have phase : s.dispatchers k = .loop ∨ s.dispatchers k = .ended := by
      rw [← dispatchers]
      exact phase
    refine waiting.trans ?_
    rcases List.mem_append.mp inside with old | new_
    · exact left.clear k on old phase
    · have sock : s.sock = some k := Option.mem_toList.mp new_
      rcases phase with loop | ended
      · have runs := stable.core.turn k (by rw [loop]; trivial)
        cases stopped.symm.trans runs
      · have attached := wired.attached k sock
        rw [ended] at attached
        exact attached.elim

theorem Left.step {desc : Desc} {action : Action S D} (left : Left s)
    (stable : Stable desc.mode s) (wired : Wired s) (clean : Clean desc.mode s action)
    (taken : step desc s action = some t) : Left t := by
  obtain ⟨newest, timely⟩ := clean
  cases running : s.running with
  | some k =>
    cases action with
    | loop k' =>
      simp only [Socketchannel.step, running, turn] at taken
      split_ifs at taken with same
      subst same
      obtain ⟨loop, read⟩ := left.turned stable running timely rfl
      split at taken
      next phase =>
        cases taken
        exact loop phase
      next j popped phase =>
        cases taken
        exact read j popped phase
      next => cases taken
    | _ => simp [Socketchannel.step, running, turn] at taken
  | none =>
    have same : ∀ (n : Sockets S D), Left { s with net := n } :=
      fun n => left.fewer (frame_net n) rfl fun free => free
    simp only [Socketchannel.step, running] at taken
    cases action with
    | loop k => cases taken
    | connect =>
      simp only [act] at taken
      split at taken
      · split_ifs at taken
        cases taken
        exact left.fewer ⟨rfl, rfl, rfl, fun _ there => there⟩ rfl fun free => free
      · cases taken
    | reopen =>
      cases taken
      exact left.fewer ⟨rfl, rfl, rfl, fun _ there => there⟩ rfl fun free => free
    | opened =>
      simp only [act] at taken
      split at taken
      · cases taken
        refine ⟨?_, left.replaced, ?_⟩
        · intro k given
          have bound := (left.given k given).1
          refine ⟨Nat.lt_succ_of_lt bound, ?_⟩
          intro there
          cases there
          exact absurd bound (Nat.lt_irrefl _)
        · intro k on given
          have bound := (left.given k given).1
          have on : k + 1 = s.connections + 1 := on
          omega
      · cases taken
    | notOpened =>
      simp only [act] at taken
      split at taken
      · cases taken
        exact left.fewer ⟨rfl, rfl, rfl, fun _ there => there⟩ rfl fun free => free
      · cases taken
    | authEnd ok =>
      simp only [act] at taken
      split at taken
      · split_ifs at taken
        · cases taken
          exact left.fewer ⟨rfl, rfl, rfl, fun _ there => there⟩ rfl fun free => free
        · cases taken
          exact left.fewer ⟨rfl, rfl, rfl, fun _ there => there⟩ rfl fun free => free
        · cases taken
          refine left.fewer (frame_closeChannelSocket desc.mode s .auth)
            (closeChannelSocket_dispatchers desc.mode s .auth).1 ?_
          rw [closeChannelSocket_waiting desc.mode s (by simp)]
          exact id
      · cases taken
    | request response =>
      simp only [act] at taken
      split at taken
      next j there =>
        split_ifs at taken
        cases taken
        have open_ : ∀ k, k + 1 = s.connections → k ∉ s.given := by
          intro k on given
          have := stable.core.sock j there
          have same : j = k := by omega
          exact (left.given k given).2 (same ▸ there)
        unfold Channel.pushResponse
        cases desc.mode with
        | order => exact ⟨left.given, left.replaced, fun k on given => absurd given (open_ k on)⟩
        | session =>
          cases response with
          | none => exact ⟨left.given, left.replaced, fun k on given => absurd given (open_ k on)⟩
          | some session =>
            refine ⟨left.given, ?_, fun k on given => absurd given (open_ k on)⟩
            have unused : s.sessions.filter (·.1 = session) = [] := by
              refine List.filter_eq_nil_iff.mpr ?_
              intro entry inside is
              refine timely ?_
              rw [← of_decide_eq_true is]
              exact List.mem_map_of_mem inside
            simp [unused, left.replaced]
      next => cases taken
    | writeFails =>
      simp only [act] at taken
      split_ifs at taken with ready
      cases taken
      obtain ⟨j, there⟩ := Option.isSome_iff_exists.mp ready.1
      have frame := frame_closeChannelSocket desc.mode s .wakeupAll
      refine ⟨?_, frame.replaced.trans left.replaced, ?_⟩
      · rw [frame.given, frame.connections]
        exact fun i inside => ⟨(left.given i inside).1,
          fun there => (left.given i inside).2 (frame.sock i there)⟩
      · rw [frame.given, frame.connections]
        intro k on given _
        have := stable.core.sock j there
        have same : j = k := by omega
        exact absurd (same ▸ there) (left.given k given).2
    | close =>
      simp only [act] at taken
      split_ifs at taken
      · cases taken
        exact left
      · cases taken
        have closed : Left { s with closed := true } :=
          left.fewer ⟨rfl, rfl, rfl, fun _ there => there⟩ rfl fun free => free
        refine closed.giveUp ⟨?_, stable.settled⟩ (wired.same rfl rfl rfl rfl) running
        exact stable.core.held_step (stable.core.held.agree
          ⟨rfl, rfl, rfl, rfl, rfl, rfl, rfl, rfl, fun _ _ => rfl⟩ stable.core.held.shut
            fun _ is => is) (fun _ is => is) rfl rfl rfl rfl rfl fun _ is => is
    | changehost =>
      simp only [act] at taken
      split_ifs at taken
      · cases taken
        exact left
      · cases taken
        exact left.giveUp stable wired running
    | data j chunk =>
      simp only [act] at taken
      split_ifs at taken
      cases taken
      exact same _
    | disconnect j =>
      simp only [act] at taken
      split_ifs at taken
      cases taken
      exact same _
    | start k =>
      simp only [act] at taken
      split_ifs at taken with forked
      cases taken
      refine left.dispatched ⟨rfl, rfl, rfl, fun _ there => there⟩ newest ?_
      intro given
      refine clear_goOn fun _ => ?_
      have timely := timely given
      rw [forked] at timely
      exact timely
    | resume co =>
      simp only [act] at taken
      split_ifs at taken
      cases co with
      | dispatch k =>
        cases taken
        exact left.resumed stable newest timely _
      | closer j =>
        simp only at taken
        split at taken
        next after closer =>
          cases taken
          have woken : Frame s { s with
              net := finishClose { s.net with awake := s.net.awake.erase (.closer j) } j
              closers := Function.update s.closers j none } :=
            ⟨rfl, rfl, rfl, fun _ there => there⟩
          refine left.fewer (woken.trans (frame_afterClose desc.mode _ j after)) ?_ ?_
          · exact (afterClose_frame desc.mode _ j after).2.2.2
          · intro free
            cases after with
            | nothing => exact free
            | auth => exact free
            | wakeupAll =>
              obtain ⟨thread, sessions⟩ := List.append_eq_nil_iff.mp free
              cases desc.mode with
              | order => simpa [Channel.afterClose, Channel.wakeupAll, Channel.waiting] using sessions
              | session => simpa [Channel.afterClose, Channel.wakeupAll, Channel.waiting] using thread
        next =>
          cases taken
          exact same _

instance (mode : Mode) (s : Channel S D) : (buffer : List (Chunk S D)) →
    Decidable (LeavesNone mode s buffer)
  | [] | .part :: _ | .bad :: _ => .isTrue trivial
  | .last answer :: _ =>
      match mode, answer with
      | .order, _ => inferInstanceAs (Decidable (s.thread = []))
      | .session, ⟨some session, _, _⟩ =>
          inferInstanceAs (Decidable (s.sessions.filter (·.1 ≠ session) = []))
      | .session, ⟨none, _, _⟩ => .isTrue trivial

instance (mode : Mode) (s : Channel S D) : (phase : Phase) → Decidable (Timely mode s phase)
  | .forked => inferInstanceAs (Decidable (s.waiting = []))
  | .read j _ | .reading j _ =>
      inferInstanceAs (Decidable (LeavesNone mode s (s.net.pool j).buffer))
  | .blocking j =>
      inferInstanceAs (Decidable ((s.net.pool j).connected = true → s.waiting = []))
  | .loop | .closing _ _ _ | .ended => .isTrue trivial

instance (mode : Mode) (s : Channel S D) : (action : Action S D) → Decidable (Clean mode s action)
  | .request (some session) =>
      inferInstanceAs (Decidable (Newest s (.request (some session) : Action S D) ∧
        session ∉ s.sessions.map Prod.fst))
  | .start k =>
      inferInstanceAs (Decidable (Newest s (.start k : Action S D) ∧
        (k ∈ s.given → Timely mode s (s.dispatchers k))))
  | .loop k =>
      inferInstanceAs (Decidable (Newest s (.loop k : Action S D) ∧
        (k ∈ s.given → Timely mode s (s.dispatchers k))))
  | .resume (.dispatch k) =>
      inferInstanceAs (Decidable (Newest s (.resume (.dispatch k) : Action S D) ∧
        (k ∈ s.given → Timely mode s (s.dispatchers k))))
  | .resume (.closer j) =>
      inferInstanceAs (Decidable (Newest s (.resume (.closer j) : Action S D) ∧ True))
  | .request none | .opened | .connect | .reopen | .notOpened | .authEnd _ | .writeFails | .close
  | .changehost | .data _ _ | .disconnect _ => inferInstanceAs (Decidable (Newest s _ ∧ True))

theorem run_left {desc : Desc} (actions : List (Action S D))
    (clean : Transition.Along (step desc) (Clean desc.mode) .start actions)
    (reached : Transition.run (step desc) .start actions = some s) :
    Stable desc.mode s ∧ Wired s ∧ Left s := by
  have path := Transition.Path.of_run actions (.refl Channel.start) clean reached
  refine path.invariant (fun s => Stable desc.mode s ∧ Wired s ∧ Left s) ?_
    ⟨start_stable desc.mode, start_wired, start_left⟩
  rintro s action t ⟨stable, wired, left⟩ clean taken
  exact ⟨stable.step clean.1 taken, wired.step stable clean.1 taken,
    left.step stable wired clean taken⟩

theorem waiters_released (desc : Desc) (actions : List (Action S D)) (s : Channel S D)
    (clean : Transition.Along (step desc) (Clean desc.mode) .start actions)
    (reached : Transition.run (step desc) .start actions = some s) : Released desc.mode s := by
  obtain ⟨stable, _, left⟩ := run_left actions clean reached
  exact left.released stable

def closedWhileWaiting : List (Action Nat Nat) :=
  [.connect, .opened, .request (some 4), .request (some 5), .start 0, .loop 0,
    .data 0 (.last ⟨some 5, true, 7⟩), .resume (.dispatch 0), .loop 0, .close, .disconnect 0,
    .resume (.dispatch 0), .loop 0]

theorem closed_while_waiting_released :
    ∃ s, Transition.run (step ⟨.session, false⟩) .start closedWhileWaiting = some s ∧
      Released .session s :=
  ⟨_, rfl, waiters_released ⟨.session, false⟩ closedWhileWaiting _ (by decide) rfl⟩

theorem close_leaves_waiter :
    ∃ s, Transition.run (step ⟨.order, false⟩) (.start : Channel Nat Nat)
        [.connect, .opened, .request none, .request none, .start 0, .loop 0, .close,
          .data 0 (.last ⟨none, true, 7⟩), .resume (.dispatch 0), .loop 0] = some s ∧
      ¬ Released .order s := by
  refine ⟨_, rfl, ?_⟩
  intro released
  exact (released.resumed 0 (by decide) (by decide) 1 none (by decide)).1 (by decide)

end Pskynet.Socketchannel
