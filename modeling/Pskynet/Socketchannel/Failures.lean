import Pskynet.Socketchannel.Newest

set_option autoImplicit false

namespace Pskynet.Socketchannel

open Channel

variable {S D : Type} {mode : Mode} {s : Channel S D} {k : Nat} {hand : Option (Nat × Option Nat)}

theorem Core.wakeupAll (core : Core mode s hand) (closed : s.sock = none)
    (newest : k + 1 = s.connections) : Core mode (s.wakeupAll mode k) hand := by
  have held := core.held.wakeupAll closed newest
  have free := wakeupAll_waiting core.held k
  have fewer : ∀ co ∈ inHand hand ++ (s.wakeupAll mode k).waiting, co ∈ inHand hand ++ s.waiting := by
    intro co inside
    rw [free, List.append_nil] at inside
    exact List.mem_append_left _ inside
  cases mode with
  | session => exact core.held_step held (fun _ there => there) rfl rfl rfl rfl rfl fewer
  | order => exact core.held_step held (fun _ there => there) rfl rfl rfl rfl rfl fewer

theorem Core.connecting (core : Core mode s hand) {connecting : Connecting}
    (auth : ∀ last, connecting = .auth last → s.connecting = connecting) :
    Core mode { s with connecting := connecting } hand :=
  { core with
    held := core.held.agree ⟨rfl, rfl, rfl, rfl, rfl, rfl, rfl, rfl, fun _ _ => rfl⟩
      core.held.shut fun _ is => is
    auth := fun last is => core.auth last ((auth last is).trans is) }

theorem Core.closers (core : Core mode s hand) {closers : Nat → Option After}
    (absent : ∀ k, s.connections ≤ k → closers k = none)
    (closed : ∀ k after, closers k = some after → s.sock ≠ some k) :
    Core mode { s with closers := closers } hand :=
  { core with
    absent := fun k bound => ⟨(core.absent k bound).1, absent k bound⟩
    closed
    held := core.held.agree ⟨rfl, rfl, rfl, rfl, rfl, rfl, rfl, rfl, fun _ _ => rfl⟩
      core.held.shut fun _ is => is }

theorem Core.afterClose (core : Core mode s hand) (closed : s.sock = none) {after : After}
    (newest : after = .wakeupAll → k + 1 = s.connections) :
    Core mode (s.afterClose mode k after) hand := by
  cases after with
  | nothing => exact core
  | wakeupAll => exact core.wakeupAll closed (newest rfl)
  | auth => exact core.connecting fun _ is => by cases is

theorem Core.closeChannelSocket (core : Core mode s hand) {after : After}
    (open_ : after = .wakeupAll → s.sock.isSome) :
    Core mode (s.closeChannelSocket mode after) hand := by
  unfold Channel.closeChannelSocket
  split
  next closed =>
    refine core.afterClose closed ?_
    intro is
    have := open_ is
    rw [closed] at this
    cases this
  next j sock =>
    have newest := core.sock j sock
    have shut := core.shut (s.net.close j (.closer j)).1 s.shut core.held.shut
    simp only
    split_ifs
    · exact shut.afterClose rfl fun _ => newest
    · refine shut.closers ?_ fun _ _ _ there => by cases there
      intro k bound
      have apart : k ≠ j := by
        have : s.connections ≤ k := bound
        omega
      exact (Function.update_of_ne apart ..).trans (core.absent k bound).2

theorem closeChannelSocket_sock (mode : Mode) (s : Channel S D) (after : After) :
    (s.closeChannelSocket mode after).sock = none := by
  unfold Channel.closeChannelSocket
  split
  next closed => cases after <;> cases mode <;> exact closed
  next =>
    simp only
    split_ifs
    · cases after <;> cases mode <;> rfl
    · rfl

theorem closeChannelSocket_dispatchers (mode : Mode) (s : Channel S D) (after : After) :
    (s.closeChannelSocket mode after).dispatchers = s.dispatchers ∧
      (s.closeChannelSocket mode after).connections = s.connections := by
  unfold Channel.closeChannelSocket
  split
  · cases after <;> cases mode <;> exact ⟨rfl, rfl⟩
  · simp only
    split_ifs
    · cases after <;> cases mode <;> exact ⟨rfl, rfl⟩
    · exact ⟨rfl, rfl⟩

theorem closeChannelSocket_hand (mode : Mode) (s : Channel S D) (after : After) :
    (s.closeChannelSocket mode after).hand = s.hand := by
  obtain ⟨dispatchers, connections⟩ := closeChannelSocket_dispatchers mode s after
  simp only [Channel.hand, dispatchers, connections]

theorem Stable.writeFails (stable : Stable mode s) (open_ : s.sock.isSome) :
    Stable mode (s.closeChannelSocket mode .wakeupAll) := by
  refine ⟨?_, ?_⟩
  · rw [closeChannelSocket_hand]
    exact stable.core.closeChannelSocket fun _ => open_
  · intro k newest _
    obtain ⟨j, sock⟩ := Option.isSome_iff_exists.mp open_
    have here : k = j := by
      have := stable.core.sock j sock
      have := (closeChannelSocket_dispatchers mode s .wakeupAll).2
      omega
    subst here
    simp only [Channel.closeChannelSocket, sock]
    split_ifs
    · left
      exact wakeupAll_waiting (stable.core.shut (s.net.close k (.closer k)).1 s.shut
        stable.core.held.shut).held k
    · exact .inr (.inl (Function.update_self ..))

theorem closeChannelSocket_waiting (mode : Mode) (s : Channel S D) {after : After} (other : after ≠ .wakeupAll) :
    (s.closeChannelSocket mode after).waiting = s.waiting := by
  unfold Channel.closeChannelSocket
  split
  · cases after with
    | wakeupAll => exact absurd rfl other
    | nothing => rfl
    | auth => rfl
  · simp only
    split_ifs
    · cases after with
      | wakeupAll => exact absurd rfl other
      | nothing => rfl
      | auth => rfl
    · rfl

theorem Core.unwaited (core : Core mode s hand) {last : Option Nat}
    (is : s.connecting = .auth last) (ready : s.ready) : inHand hand ++ s.waiting = [] := by
  refine List.eq_nil_iff_forall_not_mem.mpr ?_
  intro co inside
  have same := core.auth last is co inside
  simp only [Channel.ready, is, same, List.any_eq_true, beq_iff_eq] at ready
  obtain ⟨entry, there, of⟩ := ready
  have given := List.mem_map_of_mem (f := Prod.fst) there
  rw [of] at given
  exact List.disjoint_of_nodup_append core.held.once given inside

theorem Stable.authFails (stable : Stable mode s) {last : Option Nat}
    (is : s.connecting = .auth last) (ready : s.ready) :
    Stable mode (s.closeChannelSocket mode .auth) := by
  refine ⟨?_, ?_⟩
  · rw [closeChannelSocket_hand]
    exact stable.core.closeChannelSocket fun is => by cases is
  · intro _ _ _
    rw [closeChannelSocket_waiting mode s (by simp)]
    exact .inl (List.append_eq_nil_iff.mp (stable.core.unwaited is ready)).2

theorem Stable.giveUp (stable : Stable mode s) : Stable mode (s.giveUp mode) := by
  have core : Core mode (s.closeChannelSocket mode .nothing) s.hand :=
    stable.core.closeChannelSocket fun is => by cases is
  have same := closeChannelSocket_hand mode s .nothing
  refine ⟨?_, ?_⟩
  · have hand : (s.giveUp mode).hand = s.hand := same
    rw [hand]
    refine core.held_step ?_ (fun _ there => there) rfl rfl rfl rfl rfl fun _ inside => inside
    exact core.held.agree ⟨rfl, rfl, rfl, rfl, rfl, rfl, rfl, rfl, fun _ _ => rfl⟩ core.held.shut fun _ is => is
  · intro k newest _
    have connections := (closeChannelSocket_dispatchers mode s .nothing).2
    have newest : k + 1 = s.connections := connections ▸ newest
    cases sock : s.sock with
    | some j =>
      have here : k = j := by
        have := stable.core.sock j sock
        omega
      subst here
      refine .inr (.inr (.inr ?_))
      simp [Channel.giveUp, sock]
    | none =>
      have unchanged : s.closeChannelSocket mode .nothing = s := by
        unfold Channel.closeChannelSocket
        split
        · rfl
        next j there => cases sock.symm.trans there
      have whole : s.giveUp mode = s := by
        unfold Channel.giveUp
        rw [unchanged, sock]
        simp
      rw [whole]
      exact stable.settled k newest sock

theorem Stable.closed {j : Nat} {after : After} (stable : Stable mode s)
    (closer : s.closers j = some after) (newest : after = .wakeupAll → j + 1 = s.connections)
    (n : Sockets S D) :
    Stable mode ({ s with
      net := n, closers := Function.update s.closers j none }.afterClose mode j after) := by
  have left : Core mode { s with net := n, closers := Function.update s.closers j none } s.hand := by
    refine (stable.core.net n).closers ?_ ?_
    · intro k bound
      by_cases here : k = j
      · exact here ▸ Function.update_self ..
      · exact (Function.update_of_ne here ..).trans (stable.core.absent k bound).2
    · intro k other is
      by_cases here : k = j
      · rw [here, Function.update_self] at is
        cases is
      · rw [Function.update_of_ne here] at is
        exact stable.core.closed k other is
  have settled : after ≠ .wakeupAll → ∀ k, k + 1 = s.connections → s.sock = none →
      s.waiting = [] ∨ Function.update s.closers j none k = some After.wakeupAll ∨
        (∃ i j popped, s.dispatchers k = .closing i j popped) ∨ k ∈ s.given := by
    intro other k newest closed
    rcases stable.settled k newest closed with free | woken | others
    · exact .inl free
    · refine .inr (.inl ?_)
      have apart : k ≠ j := by
        rintro rfl
        cases woken.symm.trans closer
        exact other rfl
      exact (Function.update_of_ne apart ..).trans woken
    · exact .inr (.inr others)
  cases after with
  | nothing => exact ⟨left, settled (by simp)⟩
  | auth =>
    refine ⟨left.connecting ?_, settled (by simp)⟩
    intro _ is
    cases is
  | wakeupAll =>
    have closed : s.sock = none := by
      cases sock : s.sock with
      | none => rfl
      | some i =>
        have := stable.core.sock i sock
        have := newest rfl
        have same : i = j := by omega
        exact absurd (same ▸ sock) (stable.core.closed j _ closer)
    have woken := left.wakeupAll closed (newest rfl)
    have free := wakeupAll_waiting left.held j
    refine ⟨?_, fun _ _ _ => .inl free⟩
    cases mode with
    | session => exact woken
    | order => exact woken

theorem Stable.opened (stable : Stable mode s) (desc : Desc) (stopped : s.running = none)
    (free : s.waiting = []) : Stable mode (s.established desc) := by
  have phases : ∀ k, (s.established desc).dispatchers k =
      if k = s.connections then .forked else s.dispatchers k := fun k => Function.update_apply ..
  have hand : (s.established desc).hand = none := by
    simp [Channel.hand, Channel.established, Phase.popped]
  refine ⟨⟨?_, ?_, ?_, ?_, ?_, ?_, ?_, ?_, ?_⟩, ?_⟩
  · intro j there
    cases there
    rfl
  · intro k bound
    have bound : s.connections + 1 ≤ k := bound
    have apart : k ≠ s.connections := by omega
    rw [phases, if_neg apart]
    exact stable.core.absent k (by omega)
  · intro k
    rw [phases]
    split_ifs
    · trivial
    · exact stable.core.own k
  · intro k is
    cases stopped.symm.trans is
  · intro k runs
    rw [phases] at runs
    split_ifs at runs
    · exact runs.elim
    · exact stable.core.turn k runs
  · intro k i j popped is there
    cases there
    rw [phases, if_pos rfl] at is
    cases is
  · intro k after is there
    cases there
    have := (stable.core.absent s.connections (Nat.le_refl _)).2
    cases this.symm.trans is
  · rw [hand]
    refine stable.core.held.opened free ⟨rfl, rfl, rfl, rfl, rfl, rfl, rfl, rfl, ?_⟩ rfl rfl rfl ?_
    · intro k before
      have before : k + 1 < s.connections + 1 := before
      rw [phases, if_neg (by omega)]
    · intro j newest
      have here : s.connections - 1 = j := by omega
      simp only [Channel.hand, here]
  · intro last _ co inside
    have same : (s.established desc).waiting = s.waiting := rfl
    rw [hand, same, free] at inside
    cases inside
  · intro _ _ there
    cases there

theorem start_stable (mode : Mode) : Stable mode (Channel.start : Channel S D) where
  core := by
    refine ⟨?_, fun _ _ => ⟨rfl, rfl⟩, fun _ => trivial, ?_, fun _ runs => runs.elim, ?_, ?_,
      start_held mode, ?_⟩
    · intro _ there
      cases there
    · intro _ is
      cases is
    · intro _ _ _ _ is
      cases is
    · intro _ _ is
      cases is
    · intro _ is
      cases is
  settled := fun _ _ _ => .inl rfl

variable [DecidableEq S]

theorem pushResponse_connecting (mode : Mode) (s : Channel S D) (j : Nat) (response : Option S) :
    (s.pushResponse mode j response).connecting =
      match s.connecting with
      | .auth _ => .auth (some s.registered.length)
      | other => other := by
  cases mode with
  | order => rfl
  | session => cases response <;> rfl

theorem Core.request (core : Core mode s hand) {j : Nat} {response : Option S}
    (sock : s.sock = some j) (ready : s.ready) (fits : response.isSome = (mode = .session)) :
    Core mode (s.pushResponse mode j response) hand := by
  have newest := core.sock j sock
  have held : Held mode (s.pushResponse mode j response) hand := by
    cases mode with
    | order =>
      refine core.held.pushed sock newest
        ⟨rfl, rfl, rfl, rfl, rfl, rfl, rfl, rfl, fun _ _ => rfl⟩ (fun _ there => there) rfl rfl
        (fun _ => ⟨rfl, rfl, rfl⟩) fun is => by cases is
    | session =>
      obtain ⟨key, rfl⟩ := Option.isSome_iff_exists.mp (fits.mpr rfl)
      refine core.held.pushed sock newest
        ⟨rfl, rfl, rfl, rfl, rfl, rfl, rfl, rfl, fun _ _ => rfl⟩
        (fun _ there => List.mem_append_left _ there) rfl rfl (fun is => by cases is)
        fun _ => ⟨rfl, rfl, key, rfl, s.sessions.filter (·.1 ≠ key), List.filter_sublist, ?_, ?_,
          rfl⟩
      · intro entry inside
        simpa using (List.mem_filter.mp inside).2
      · intro entry inside
        by_cases same : entry.1 = key
        · right
          refine List.mem_append_right _ (List.mem_map_of_mem ?_)
          exact List.mem_filter.mpr ⟨inside, decide_eq_true same⟩
        · exact .inl (List.mem_filter.mpr ⟨inside, decide_eq_true same⟩)
  have connecting := pushResponse_connecting mode s j response
  have waiting : ∀ co ∈ (s.pushResponse mode j response).waiting,
      co ∈ s.waiting ∨ co = s.registered.length := by
    intro co inside
    cases mode with
    | order =>
      simp only [Channel.waiting, Channel.pushResponse, List.mem_append, List.mem_singleton] at inside ⊢
      tauto
    | session =>
      obtain ⟨key, rfl⟩ := Option.isSome_iff_exists.mp (fits.mpr rfl)
      simp only [Channel.waiting, Channel.pushResponse, List.map_append, List.mem_append] at inside ⊢
      rcases inside with old | kept | new_
      · exact .inl (.inl old)
      · exact .inl (.inr ((List.filter_sublist.map _).subset kept))
      · exact .inr (List.mem_singleton.mp new_)
  have same : (s.pushResponse mode j response).sock = s.sock ∧
      (s.pushResponse mode j response).connections = s.connections ∧
      (s.pushResponse mode j response).dispatchers = s.dispatchers ∧
      (s.pushResponse mode j response).closers = s.closers ∧
      (s.pushResponse mode j response).running = s.running := by
    cases mode with
    | order => exact ⟨rfl, rfl, rfl, rfl, rfl⟩
    | session => cases response <;> exact ⟨rfl, rfl, rfl, rfl, rfl⟩
  obtain ⟨sameSock, connections, dispatchers, closers, running⟩ := same
  refine ⟨?_, ?_, ?_, ?_, ?_, ?_, ?_, held, ?_⟩
  · rw [sameSock, connections]
    exact core.sock
  · rw [connections, dispatchers, closers]
    exact core.absent
  · rw [dispatchers]
    exact core.own
  · rw [running, connections]
    exact core.running
  · rw [dispatchers, running]
    exact core.turn
  · rw [dispatchers, sameSock]
    exact core.spent
  · rw [closers, sameSock]
    exact core.closed
  · intro last is co inside
    rw [connecting] at is
    cases before : s.connecting with
    | idle =>
      rw [before] at is
      cases is
    | opening =>
      rw [before] at is
      cases is
    | auth old =>
      rw [before] at is
      cases is
      obtain ⟨noHand, noWaiting⟩ := List.append_eq_nil_iff.mp (core.unwaited before ready)
      rw [noHand, List.nil_append] at inside
      rcases waiting co inside with there | new_
      · rw [noWaiting] at there
        cases there
      · rw [new_]

def Newest (s : Channel S D) : Action S D → Prop
  | .opened => s.waiting = []
  | .start k | .resume (.dispatch k) => k + 1 = s.connections
  | .resume (.closer j) => s.closers j = some .wakeupAll → j + 1 = s.connections
  | _ => True

theorem Stable.step {t : Channel S D} {desc : Desc} {action : Action S D}
    (stable : Stable desc.mode s) (newest : Newest s action)
    (taken : step desc s action = some t) : Stable desc.mode t := by
  cases running : s.running with
  | some k =>
    have on := stable.core.running k running
    have here : s.connections - 1 = k := by omega
    have core := stable.core
    have own := stable.core.own k
    simp only [Channel.hand, here] at core
    cases action with
    | loop k' =>
      simp only [Socketchannel.step, running, turn] at taken
      split_ifs at taken with same
      split at taken
      next phase =>
        rw [phase] at core
        cases taken
        refine Mid.loop ⟨core, on, ?_⟩
        intro closed
        rcases stable.settled k on closed with free | woken | ⟨i, j, popped, is⟩ | given
        · exact .inl free
        · exact .inr (.inl woken)
        · cases phase.symm.trans is
        · exact .inr (.inr given)
      next j popped phase =>
        rw [phase] at core own
        obtain ⟨rfl, some_⟩ := own
        cases taken
        refine Mid.read ⟨core, on, ?_⟩ some_
        intro closed
        rcases stable.settled _ on closed with free | woken | ⟨i, j, popped, is⟩ | given
        · exact .inl free
        · exact .inr (.inl woken)
        · cases phase.symm.trans is
        · exact .inr (.inr given)
      next => cases taken
    | _ => simp [Socketchannel.step, running, turn] at taken
  | none =>
    have same : ∀ (n : Sockets S D), Stable desc.mode { s with net := n } :=
      fun n => ⟨stable.core.net n, stable.settled⟩
    simp only [Socketchannel.step, running] at taken
    cases action with
    | loop k => cases taken
    | connect =>
      simp only [act] at taken
      split at taken
      · split_ifs at taken
        cases taken
        refine ⟨stable.core.connecting ?_, stable.settled⟩
        intro _ is
        cases is
      · cases taken
    | reopen =>
      simp only [act, Option.some.injEq] at taken
      subst taken
      refine ⟨?_, stable.settled⟩
      exact stable.core.held_step (stable.core.held.agree ⟨rfl, rfl, rfl, rfl, rfl, rfl, rfl, rfl, fun _ _ => rfl⟩
        stable.core.held.shut fun _ is => is) (fun _ is => is) rfl rfl rfl rfl rfl fun _ is => is
    | opened =>
      simp only [act] at taken
      split at taken
      · cases taken
        exact stable.opened desc running newest
      · cases taken
    | notOpened =>
      simp only [act] at taken
      split at taken
      · cases taken
        refine ⟨stable.core.connecting ?_, stable.settled⟩
        intro _ is
        cases is
      · cases taken
    | authEnd ok =>
      simp only [act] at taken
      split at taken
      next last auth =>
        split_ifs at taken with ready
        · cases taken
          refine ⟨stable.core.connecting ?_, stable.settled⟩
          intro _ is
          cases is
        · cases taken
          refine ⟨stable.core.connecting ?_, stable.settled⟩
          intro _ is
          cases is
        · cases taken
          exact stable.authFails auth ready.1
      next => cases taken
    | request response =>
      simp only [act] at taken
      split at taken
      next j sock =>
        split_ifs at taken with ready
        cases taken
        have core := stable.core.request sock ready.1 ready.2
        have kept : (s.pushResponse desc.mode j response).sock = s.sock ∧
            (s.pushResponse desc.mode j response).hand = s.hand := by
          unfold Channel.pushResponse
          cases desc.mode with
          | order => exact ⟨rfl, rfl⟩
          | session => cases response <;> exact ⟨rfl, rfl⟩
        refine ⟨kept.2 ▸ core, ?_⟩
        intro _ _ closed
        rw [kept.1, sock] at closed
        cases closed
      next => cases taken
    | writeFails =>
      simp only [act] at taken
      split_ifs at taken with open_
      cases taken
      exact stable.writeFails open_.1
    | close =>
      simp only [act] at taken
      split_ifs at taken
      · cases taken
        exact stable
      · cases taken
        refine Stable.giveUp ⟨?_, stable.settled⟩
        exact stable.core.held_step (stable.core.held.agree ⟨rfl, rfl, rfl, rfl, rfl, rfl, rfl, rfl, fun _ _ => rfl⟩
          stable.core.held.shut fun _ is => is) (fun _ is => is) rfl rfl rfl rfl rfl fun _ is => is
    | changehost =>
      simp only [act] at taken
      split_ifs at taken
      · cases taken
        exact stable
      · cases taken
        exact stable.giveUp
    | data j chunk =>
      simp only [act] at taken
      split_ifs at taken
      cases taken
      exact same _
    | disconnect j =>
      simp only [act] at taken
      split_ifs at taken
      cases taken
      exact same _
    | start k =>
      simp only [act] at taken
      split_ifs at taken with forked
      cases taken
      have on : k + 1 = s.connections := newest
      have here : s.connections - 1 = k := by omega
      have core := stable.core
      simp only [Channel.hand, here, forked] at core
      have mid : Mid desc.mode s k none := by
        refine ⟨core, on, fun closed => ?_⟩
        rcases stable.settled k on closed with free | woken | ⟨i, j, popped, is⟩ | given
        · exact .inl free
        · exact .inr (.inl woken)
        · cases forked.symm.trans is
        · exact .inr (.inr given)
      exact mid.goOn trivial rfl fun _ _ _ is => by cases is
    | resume co =>
      simp only [act] at taken
      split_ifs at taken
      cases co with
      | dispatch k =>
        cases taken
        exact (same _).resume newest
      | closer j =>
        simp only at taken
        split at taken
        next after closer =>
          cases taken
          exact stable.closed closer (fun is => newest (is ▸ closer)) _
        next =>
          cases taken
          exact same _

structure Apart (s : Channel S D) : Prop where
  shut : ∀ j i, (j, i) ∈ s.shut → i = j
  failed : ∀ co j, (co, .socketError j) ∈ s.delivered →
    ∃ response, s.registered[co]? = some (j, response)

instance (s : Channel S D) : (action : Action S D) → Decidable (Newest s action)
  | .opened => inferInstanceAs (Decidable (s.waiting = []))
  | .start k | .resume (.dispatch k) => inferInstanceAs (Decidable (k + 1 = s.connections))
  | .resume (.closer j) =>
      inferInstanceAs (Decidable (s.closers j = some .wakeupAll → j + 1 = s.connections))
  | .loop _ | .connect | .reopen | .notOpened | .authEnd _ | .request _ | .writeFails | .close
  | .changehost | .data _ _ | .disconnect _ => .isTrue trivial

theorem run_stable {desc : Desc} (actions : List (Action S D))
    (newest : Transition.Along (step desc) Newest .start actions)
    (reached : Transition.run (step desc) .start actions = some s) : Stable desc.mode s := by
  have path := Transition.Path.of_run actions (.refl Channel.start) newest reached
  exact path.invariant (Stable desc.mode) (fun _ _ _ stable allow taken => stable.step allow taken)
    (start_stable desc.mode)

theorem failures_apart (desc : Desc) (actions : List (Action S D)) (s : Channel S D)
    (newest : Transition.Along (step desc) Newest .start actions)
    (reached : Transition.run (step desc) .start actions = some s) : Apart s := by
  have held := (run_stable actions newest reached).core.held
  exact ⟨held.shut, fun co j inside => held.fits co _ inside⟩

def lostAndBack : List (Action Nat Nat) :=
  [.connect, .opened, .request (some 4), .start 0, .loop 0, .data 0 (.last ⟨some 4, true, 7⟩),
    .resume (.dispatch 0), .loop 0, .disconnect 0, .resume (.dispatch 0), .loop 0, .connect, .opened,
    .request (some 5), .start 1, .loop 1]

theorem lost_and_back_apart :
    ∃ s, Transition.run (step ⟨.session, false⟩) .start lostAndBack = some s ∧ Apart s :=
  ⟨_, rfl, failures_apart ⟨.session, false⟩ lostAndBack _ (by decide) rfl⟩

theorem old_failure_closes_new :
    ∃ s, Transition.run (step ⟨.order, false⟩) (.start : Channel Nat Nat)
        [.connect, .opened, .request none, .start 0, .loop 0, .changehost, .connect, .opened,
          .request none, .start 1, .loop 1, .disconnect 0, .resume (.dispatch 0),
          .resume (.closer 0), .disconnect 1, .resume (.dispatch 1), .loop 1,
          .resume (.dispatch 0)] = some s ∧
      ¬ Apart s := by
  refine ⟨_, rfl, ?_⟩
  intro apart
  exact absurd (apart.shut 0 1 (by decide)) (by decide)

end Pskynet.Socketchannel
