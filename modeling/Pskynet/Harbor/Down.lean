import Pskynet.Harbor.Traffic

set_option autoImplicit false

namespace Pskynet.Harbor

open Server Memory

-- Some of the effects tells the source of a message, by `PTYPE_ERROR`, that it was not delivered.
def Reported (new : List Effect) (m : HarborMsg) : Prop :=
  ∃ destination session, Effect.send destination m.header.source 7 session [] none ∈ new

-- What is expected of a step for a harbor that is down: it stays down, a message for it is
-- reported, and nothing is written to its socket (unless another link has that number). What
-- waits for a harbor that the step closes is reported too.
structure ReportsFor (h : Harbor) (event : Event) (h' : Harbor) (new : List Effect) (k : Nat) :
    Prop where
  down : (h.s k).status = .down → (h'.s k).status = .down
  submitted : (h.s k).status = .down → ∀ m ∈ submits h event k, Reported new m
  closed : (h.s k).status = .down → ∀ bytes block, Effect.write (h.s k).fd bytes block ∈ new →
    ∃ other, other ≠ k ∧ (h'.s other).fd = (h.s k).fd
  waited : ∀ m ∈ refused h event k, Reported new m

def Reports (h : Harbor) (event : Event) (h' : Harbor) : Prop :=
  ∃ new, h'.log = h.log ++ new ∧ ∀ k, ReportsFor h event h' new k

def Untouched (h : Harbor) (event : Event) : Prop :=
  ∀ k, ((h.s k).status = .down → submits h event k = []) ∧ refused h event k = []

def Unsent (log : List Effect) : Prop :=
  ∀ source destination type session payload block,
    Effect.send source destination type session payload block ∉ log

theorem Moves.down {grows : Nat → Prop} {h h' : Harbor} (moves : Moves grows h h') (k : Nat)
    (down : (h.s k).status = .down) : (h'.s k).status = .down := by
  induction moves with
  | refl => exact down
  | tail _ move ih =>
    cases move.slots k with
    | same slot => rw [slot, ih]
    | grow _ _ _ early => simp [ih] at early
    | connect _ _ early => simp [ih] at early
    | flush _ _ early => simp [ih] at early
    | read before => simp [ih] at before
    | close _ slot => rw [slot]

theorem remote_down_unsent (h h' : Harbor) (source handle : UInt32) (name : Name) (type : RemoteType)
    (session : UInt32) (message : List UInt8) (k : Nat) (wired : Wired h)
    (down : (h.s k).status = .down)
    (some_ : submits h (.remote source handle name type session message) k ≠ [])
    (done : mainloop h (.remote source handle name type session message) = some h') :
    ∃ new, h'.log = h.log ++ new ∧ Unsent new := by
  simp only [submits] at some_
  split_ifs at some_ with here
  · obtain ⟨known, other, same⟩ := here
    have linked : (h.s k).fd ≠ 0 := (wired k).linked (by rw [down]; decide)
    have sent (base : Harbor) (slots : base.s = h.s) (own : base.id = h.id) :
        remoteSendHandle base source (resolve h handle name) type session
            { id := h.buffers, bytes := message } =
          (sendRemote base (h.s k).fd (remoteMsg h source (resolve h handle name) type session message),
            false) := by
      simp only [remoteSendHandle, own, other, slots, same, linked, down, if_false]
      rfl
    have value (named : handle = 0) : ((hashSearch (hashNode h.map name) name).map (·.value)).getD 0 =
        resolve h handle name := by
      rw [value_hashNode, resolve, if_pos named]
    refine ⟨[written (h.s k).fd (remoteMsg h source (resolve h handle name) type session message),
      .free h.buffers], ?_, by simp [Unsent, written]⟩
    simp only [mainloop, Option.some.injEq] at done
    by_cases named : handle = 0
    · simp only [if_pos named, remoteSendName, value named, known, if_false] at done
      rw [sent { h with buffers := h.buffers + 1, map := hashNode h.map name } rfl rfl] at done
      rw [← done]
      simp [sendRemote, Harbor.did, written]
    · have resolved : resolve h handle name = handle := if_neg named
      rw [if_neg named, ← resolved, sent { h with buffers := h.buffers + 1 } rfl rfl] at done
      rw [← done]
      simp [sendRemote, Harbor.did, written]
  · contradiction

theorem submits_down_unsent (h h' : Harbor) (event : Event) (k : Nat) (wired : Wired h)
    (down : (h.s k).status = .down) (some_ : submits h event k ≠ [])
    (done : mainloop h event = some h') : ∃ new, h'.log = h.log ++ new ∧ Unsent new := by
  cases event with
  | remote source handle name type session message =>
    exact remote_down_unsent h h' source handle name type session message k wired down some_ done
  | command msg source =>
    cases binds : bindsName msg with
    | none =>
      simp only [submits, binds] at some_
      contradiction
    | some name =>
      simp only [submits, binds] at some_
      split_ifs at some_ with here
      · obtain ⟨remote, same⟩ := here
        have linked : (h.s (source >>> 24).toNat).fd ≠ 0 :=
          (wired _).linked (by rw [same, down]; decide)
        rw [mainloop, harborCommand_binds h msg source name binds] at done
        obtain ⟨_, _, ⟨none, _⟩ | ⟨_, bound⟩⟩ := updateName_cases h h' name source done
        · exact absurd none some_
        · cases bound with
          | dropped free _ => exact absurd free linked
          | moved free _ _ _ => exact absurd free linked
          | sent _ log => exact ⟨_, log, by simp [Unsent, written]⟩
      · contradiction
  | data | closed | connected | socket | misread => contradiction

theorem refused_unsent (h h' : Harbor) (event : Event) (k : Nat) (wired : Wired h)
    (some_ : refused h event k ≠ []) (done : mainloop h event = some h') :
    ∃ new, h'.log = h.log ++ new ∧ Unsent new := by
  cases event with
  | data fd bytes =>
    cases bytes with
    | nil => contradiction
    | cons first rest =>
      simp only [refused] at some_
      split_ifs at some_ with here
      · obtain ⟨known, same, status, wrong⟩ := here
        have linked : (h.s k).fd ≠ 0 := (wired k).linked (by rw [status]; decide)
        have found : harborId { h with buffers := h.buffers + 1 } fd = k := same
        simp only [mainloop, Option.map_eq_some_iff] at done
        obtain ⟨last, pushed, rfl⟩ := done
        unfold pushSocketData at pushed
        simp only [found] at pushed
        rw [if_neg known] at pushed
        rcases socketLoop_greeted _ { h with buffers := h.buffers + 1 } last k fd first rest status
          linked pushed with ⟨_, text, closed⟩ | ⟨right, _⟩
        · exact (refused_traffic h { h with buffers := h.buffers + 1 } last fd k first rest same known
            status wrong linked text rfl rfl closed).2
        · exact absurd right wrong
      · contradiction
  | closed | connected | socket | command | remote | misread => contradiction

theorem Unsent.not_reported {new : List Effect} (unsent : Unsent new) (m : HarborMsg) :
    ¬Reported new m := by
  rintro ⟨destination, session, inside⟩
  exact unsent _ _ _ _ _ _ inside

theorem Traffic.write {h h' : Harbor} {event : Event} {k : Nat} {sent : List Nat}
    (traffic : Traffic h event h' k sent) (new : List Effect) (log : h'.log = h.log ++ new) (fd : Int)
    (bytes : List UInt8) (block : Option Nat) (inside : Effect.write fd bytes block ∈ new) :
    (h'.s k).fd = fd ∧ (sent ≠ [] ∨ (h.s k).fd = 0) := by
  obtain ⟨new', log', writes, greeted⟩ := traffic.log
  have same : new = new' := List.append_cancel_left (log.symm.trans log')
  rw [← same] at writes greeted
  cases block with
  | none =>
    have greeting : fd ∈ greetings new := List.mem_filterMap.mpr ⟨_, inside, rfl⟩
    exact ⟨(greeted fd greeting).2, .inr (greeted fd greeting).1⟩
  | some block =>
    have written : (fd, block) ∈ sentBlocks new := List.mem_filterMap.mpr ⟨_, inside, rfl⟩
    rw [writes] at written
    obtain ⟨found, among, same⟩ := List.mem_map.mp written
    exact ⟨(Prod.mk.inj same).1, .inl (List.ne_nil_of_mem among)⟩

theorem reports_iff (h h' : Harbor) (event : Event) (wired : Wired h)
    (done : mainloop h event = some h') : Reports h event h' ↔ Untouched h event := by
  constructor
  · rintro ⟨new, log, reports⟩ k
    have unreported (m : HarborMsg) (quiet : ∃ new, h'.log = h.log ++ new ∧ Unsent new) :
        ¬Reported new m := by
      obtain ⟨new', log', unsent⟩ := quiet
      have same : new = new' := List.append_cancel_left (log.symm.trans log')
      exact same ▸ unsent.not_reported m
    constructor
    · intro down
      by_contra some_
      obtain ⟨m, inside⟩ := List.exists_mem_of_ne_nil _ some_
      exact unreported m (submits_down_unsent h h' event k wired down some_ done)
        ((reports k).submitted down m inside)
    · by_contra some_
      obtain ⟨m, inside⟩ := List.exists_mem_of_ne_nil _ some_
      exact unreported m (refused_unsent h h' event k wired some_ done)
        ((reports k).waited m inside)
  · intro untouched
    have moves := mainloop_moved h h' event wired done
    obtain ⟨j, sent, traffic⟩ := mainloop_traffic h h' event wired done
    obtain ⟨new, log, _⟩ := traffic.log
    refine ⟨new, log, ?_⟩
    intro k
    refine ⟨moves.down k, ?_, ?_, ?_⟩
    · intro down
      rw [(untouched k).1 down]
      simp
    · intro down bytes block inside
      obtain ⟨fd, cause⟩ := traffic.write new log _ bytes block inside
      refine ⟨j, ?_, fd⟩
      rintro rfl
      have slot := wired j
      rcases cause with wrote | free
      · have order := traffic.order (.inr (by rw [down]; decide))
        rw [(untouched j).1 down, slot.flushed (by rw [down]; decide) (by rw [down]; decide)] at order
        have none : sent = [] := by
          have empty := (List.append_eq_nil_iff.mp order.symm).1
          exact (List.append_eq_nil_iff.mp empty).1
        exact wrote none
      · exact slot.linked (by rw [down]; decide) free
    · rw [(untouched k).2]
      simp

theorem dead_harbor_reports (ctx : List Effect → UInt32 → Bool) (own slave : UInt32)
    (events : List Event) (final : Harbor)
    (reached : Transition.run mainloop (harborCreate ctx own slave) events = some final) :
    Transition.Along mainloop (fun h event => ∀ h', mainloop h event = some h' → Reports h event h')
        (harborCreate ctx own slave) events ↔
      Transition.Along mainloop Untouched (harborCreate ctx own slave) events := by
  refine Transition.Along.iff Wired
    (fun h event h' wired _ done => (mainloop_moved h h' event wired done).wired wired) ?_ events _
    final (create_wired ctx own slave) reached
  intro h event h' wired done
  rw [← reports_iff h h' event wired done]
  constructor
  · intro reports
    exact reports h' done
  · intro reports next taken
    rw [done] at taken
    exact Option.some.inj taken ▸ reports

def refusal : List Event :=
  [.command [0x53, 0x20, 0x37, 0x20, 0x32] 9, .data 7 [3]]

theorem refusal_reported :
    Transition.Along mainloop (fun h event => ∀ h', mainloop h event = some h' → Reports h event h')
      (harborCreate (fun _ _ => true) 1 9) refusal := by
  refine (dead_harbor_reports (fun _ _ => true) 1 9 refusal _ rfl).mpr ⟨?_, ?_, trivial⟩
  · intro k
    exact ⟨fun _ => rfl, rfl⟩
  · intro k
    refine ⟨fun _ => rfl, ?_⟩
    by_cases two : k = 2
    · rw [two]
      rfl
    · exact refused_other _ _ _ _ (.inl fun same => two same.symm)

def unheard : List Event :=
  [.command [0x53, 0x20, 0x37, 0x20, 0x32] 9, .remote 0x1000003 0x2000005 (toName []) 10 1 [65]]

theorem dead_harbor_silent :
    ∃ waiting dead later,
      Transition.run mainloop (harborCreate (fun _ _ => true) 1 9) unheard = some waiting ∧
      mainloop waiting (.data 7 [3]) = some dead ∧ ¬Reports waiting (.data 7 [3]) dead ∧
      (dead.s 2).status = .down ∧
      mainloop dead (.remote 0x1000003 0x2000005 (toName []) 10 2 [66]) = some later ∧
      ¬Reports dead (.remote 0x1000003 0x2000005 (toName []) 10 2 [66]) later ∧
      ∃ bytes, later.log = dead.log ++ [.write 7 bytes (some 2), .free 2] := by
  have wired (events : List Event) (h : Harbor)
      (reached : Transition.run mainloop (harborCreate (fun _ _ => true) 1 9) events = some h) :
      Wired h :=
    Transition.run_invariant mainloop Wired
      (fun h event h' wired done => (mainloop_moved h h' event wired done).wired wired) events _ h
      (create_wired _ 1 9) reached
  refine ⟨_, _, _, rfl, rfl, ?_, by rfl, rfl, ?_, _, by rfl⟩
  · intro reports
    have untouched := (reports_iff _ _ _ (wired unheard _ rfl) rfl).mp reports
    have none := congrArg List.length (untouched 2).2
    contradiction
  · intro reports
    have untouched := (reports_iff _ _ _ (wired (unheard ++ [.data 7 [3]]) _ rfl) rfl).mp reports
    have none := congrArg List.length ((untouched 2).1 rfl)
    contradiction

end Pskynet.Harbor
