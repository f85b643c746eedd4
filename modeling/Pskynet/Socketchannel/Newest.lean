import Pskynet.Socketchannel.Waiters

set_option autoImplicit false

namespace Pskynet.Socketchannel

variable {S D : Type}

def Phase.Runs : Phase → Prop
  | .loop | .read _ _ => True
  | _ => False

def Phase.Own (mode : Mode) (k : Nat) : Phase → Prop
  | .read j popped | .reading j popped => j = k ∧ (mode = .order → popped.isSome)
  | .blocking j => j = k
  | .closing i j _ => i = k ∧ j = k
  | .forked | .loop | .ended => True

namespace Channel

def hand (s : Channel S D) : Option (Nat × Option Nat) :=
  (s.dispatchers (s.connections - 1)).popped

end Channel

open Channel

structure Core (mode : Mode) (s : Channel S D) (hand : Option (Nat × Option Nat)) : Prop where
  sock : ∀ j, s.sock = some j → j + 1 = s.connections
  absent : ∀ k, s.connections ≤ k → s.dispatchers k = .ended ∧ s.closers k = none
  own : ∀ k, (s.dispatchers k).Own mode k
  running : ∀ k, s.running = some k → k + 1 = s.connections
  turn : ∀ k, (s.dispatchers k).Runs → s.running = some k
  spent : ∀ k i j popped, s.dispatchers k = .closing i j popped → s.sock ≠ some k
  closed : ∀ k after, s.closers k = some after → s.sock ≠ some k
  held : Held mode s hand
  auth : ∀ last, s.connecting = .auth last → ∀ co ∈ inHand hand ++ s.waiting, last = some co

structure Stable (mode : Mode) (s : Channel S D) : Prop where
  core : Core mode s s.hand
  settled : ∀ k, k + 1 = s.connections → s.sock = none →
    s.waiting = [] ∨ s.closers k = some .wakeupAll ∨
      (∃ i j popped, s.dispatchers k = .closing i j popped) ∨ k ∈ s.given

structure Mid (mode : Mode) (s : Channel S D) (k : Nat) (hand : Option (Nat × Option Nat)) :
    Prop where
  core : Core mode s hand
  newest : k + 1 = s.connections
  calm : s.sock = none → s.waiting = [] ∨ s.closers k = some .wakeupAll ∨ k ∈ s.given

variable {mode : Mode} {s : Channel S D} {k : Nat} {hand : Option (Nat × Option Nat)}

theorem Core.net (core : Core mode s hand) (n : Sockets S D) :
    Core mode { s with net := n } hand :=
  { core with
    held := core.held.agree ⟨rfl, rfl, rfl, rfl, rfl, rfl, rfl, rfl, fun _ _ => rfl⟩
      core.held.shut fun _ is => is }

theorem Mid.net (mid : Mid mode s k hand) (n : Sockets S D) :
    Mid mode { s with net := n } k hand :=
  ⟨mid.core.net n, mid.newest, mid.calm⟩

theorem Core.setPhase (core : Core mode s hand) (newest : k + 1 = s.connections) (phase : Phase)
    (running : Option Nat) (own : phase.Own mode k) (runs : phase.Runs → running = some k)
    (only : running = some k ∨ running = none)
    (spent : ∀ i j popped, phase = .closing i j popped → s.sock ≠ some k) :
    Core mode { s.setPhase k phase with running := running } hand := by
  have phases : ∀ k', (s.setPhase k phase).dispatchers k' = if k' = k then phase else s.dispatchers k' :=
    fun k' => Function.update_apply ..
  refine ⟨core.sock, ?_, ?_, ?_, ?_, ?_, core.closed, ?_, core.auth⟩
  · intro k' bound
    refine ⟨?_, (core.absent k' bound).2⟩
    have apart : k' ≠ k := by
      rintro rfl
      have : s.connections ≤ k' := bound
      omega
    simp only [phases, if_neg apart]
    exact (core.absent k' bound).1
  · intro k'
    simp only [phases]
    split_ifs with here
    · exact here ▸ own
    · exact core.own k'
  · intro k' is
    rcases only with same | none_
    · cases same.symm.trans is
      exact newest
    · cases none_.symm.trans is
  · intro k' is
    simp only [phases] at is
    split_ifs at is with here
    · exact here ▸ runs is
    · have := core.running k' (core.turn k' is)
      omega
  · intro k' i j popped is
    simp only [phases] at is
    split_ifs at is with here
    · exact here ▸ spent i j popped is
    · exact core.spent k' i j popped is
  · refine core.held.agree ⟨rfl, rfl, rfl, rfl, rfl, rfl, rfl, rfl, ?_⟩ core.held.shut
      fun _ is => is
    intro k' before
    have apart : k' ≠ k := by omega
    exact (phases k').trans (if_neg apart)

theorem hand_setPhase (newest : k + 1 = s.connections) (phase : Phase) (running : Option Nat) :
    Channel.hand { s.setPhase k phase with running := running } = phase.popped := by
  have here : s.connections - 1 = k := by omega
  simp only [Channel.hand, Channel.setPhase, here, Function.update_self]

theorem Mid.settled (mid : Mid mode s k hand) {dispatchers : Nat → Phase} :
    ∀ k', k' + 1 = s.connections → s.sock = none → s.waiting = [] ∨
      s.closers k' = some .wakeupAll ∨ (∃ i j popped, dispatchers k' = .closing i j popped) ∨
        k' ∈ s.given := by
  intro k' newest closed
  obtain rfl : k' = k := by
    have := mid.newest
    omega
  rcases mid.calm closed with free | woken | given
  · exact .inl free
  · exact .inr (.inl woken)
  · exact .inr (.inr (.inr given))

theorem Mid.goOn (mid : Mid mode s k hand) {phase : Phase} (own : phase.Own mode k)
    (popped : phase.popped = hand) (open_ : ∀ i j popped, phase ≠ .closing i j popped) :
    Stable mode (s.goOn k phase) where
  core := by
    have same := hand_setPhase mid.newest phase (some k)
    rw [Channel.goOn, same, popped]
    exact mid.core.setPhase mid.newest phase _ own (fun _ => rfl) (.inl rfl)
      fun i j popped is => absurd is (open_ i j popped)
  settled := mid.settled

theorem Mid.yield_ (mid : Mid mode s k hand) {phase : Phase} (own : phase.Own mode k)
    (popped : phase.popped = hand) (stops : ¬ phase.Runs)
    (open_ : ∀ i j popped, phase ≠ .closing i j popped) : Stable mode (s.yield_ k phase) where
  core := by
    have same := hand_setPhase mid.newest phase none
    rw [Channel.yield_, same, popped]
    exact mid.core.setPhase mid.newest phase _ own (fun runs => absurd runs stops) (.inr rfl)
      fun i j popped is => absurd is (open_ i j popped)
  settled := mid.settled

theorem Core.held_step {t : Channel S D} {left : Option (Nat × Option Nat)}
    (core : Core mode s hand) (held : Held mode t left) (sock : ∀ j, t.sock = some j → s.sock = some j)
    (connections : t.connections = s.connections) (dispatchers : t.dispatchers = s.dispatchers)
    (closers : t.closers = s.closers) (running : t.running = s.running)
    (connecting : t.connecting = s.connecting)
    (fewer : ∀ co ∈ inHand left ++ t.waiting, co ∈ inHand hand ++ s.waiting) :
    Core mode t left := by
  refine ⟨?_, ?_, ?_, ?_, ?_, ?_, ?_, held, ?_⟩
  · intro j there
    exact connections ▸ core.sock j (sock j there)
  · rw [connections, dispatchers, closers]
    exact core.absent
  · rw [dispatchers]
    exact core.own
  · rw [running, connections]
    exact core.running
  · rw [dispatchers, running]
    exact core.turn
  · rw [dispatchers]
    exact fun k i j popped is there => core.spent k i j popped is (sock k there)
  · rw [closers]
    exact fun k after is there => core.closed k after is (sock k there)
  · intro last is co inside
    exact core.auth last (connecting ▸ is) co (fewer co inside)

theorem Core.afterFailure (core : Core mode s hand) (newest : k + 1 = s.connections)
    (closed : s.sock = none) : Stable mode (s.afterFailure mode k k hand) := by
  have handed := core.held.handFails closed newest
  have woken := handed.wakeupAll (s := s.deliver (hand.bind Prod.snd) (.socketError k)) closed newest
  have free := wakeupAll_waiting handed k
  have after : Core mode ((s.deliver (hand.bind Prod.snd) (.socketError k)).wakeupAll mode k) none := by
    cases mode with
    | session =>
      refine core.held_step woken (fun _ there => there) rfl rfl rfl rfl rfl ?_
      intro co inside
      rw [free] at inside
      cases inside
    | order =>
      refine core.held_step woken (fun _ there => there) rfl rfl rfl rfl rfl ?_
      intro co inside
      rw [free] at inside
      cases inside
  have connections : ((s.deliver (hand.bind Prod.snd) (.socketError k)).wakeupAll mode k).connections =
      s.connections := by
    cases mode <;> rfl
  have mid : Mid mode ((s.deliver (hand.bind Prod.snd) (.socketError k)).wakeupAll mode k) k none :=
    ⟨after, connections ▸ newest, fun _ => .inl free⟩
  exact mid.goOn trivial rfl fun _ _ _ is => by cases is

theorem Core.shut (core : Core mode s hand) (n : Sockets S D) (shut : List (Nat × Nat))
    (apart : ∀ j i, (j, i) ∈ shut → i = j) :
    Core mode { s with sock := none, net := n, shut := shut } hand := by
  refine ⟨?_, core.absent, core.own, core.running, core.turn, ?_, ?_, ?_, core.auth⟩
  · intro _ there
    cases there
  · intro _ _ _ _ _ there
    cases there
  · intro _ _ _ there
    cases there
  · exact core.held.agree ⟨rfl, rfl, rfl, rfl, rfl, rfl, rfl, rfl, fun _ _ => rfl⟩ apart fun _ there => by cases there

theorem Core.fail (core : Core mode s hand) (newest : k + 1 = s.connections) :
    Stable mode (s.fail mode k k hand) := by
  unfold Channel.fail
  cases sock : s.sock with
  | none => exact core.afterFailure newest sock
  | some i =>
    have here : i = k := by
      have := core.sock i sock
      omega
    subst here
    have apart : ∀ j' i', (j', i') ∈ s.shut ++ [(i, i)] → i' = j' := by
      intro j' i' inside
      rcases List.mem_append.mp inside with old | new_
      · exact core.held.shut j' i' old
      · cases List.mem_singleton.mp new_
        rfl
    have shut := core.shut (s.net.close i (.dispatch i)).1 _ apart
    simp only
    split_ifs
    · exact shut.afterFailure newest rfl
    · have phase := shut.setPhase newest (.closing i i hand) none
        ⟨rfl, rfl⟩ (fun runs => runs.elim) (.inr rfl) (fun _ _ _ _ there => by cases there)
      have same := hand_setPhase
        (s := { s with
          sock := none, net := (s.net.close i (.dispatch i)).1, shut := s.shut ++ [(i, i)] })
        newest (.closing i i hand) none
      refine ⟨?_, ?_⟩
      · rw [Channel.yield_, same]
        exact phase
      · intro k' newest' _
        have here : k' = i := by
          have : k' + 1 = s.connections := newest'
          omega
        rw [here]
        exact .inr (.inr (.inl ⟨i, i, hand, Function.update_self ..⟩))

variable [DecidableEq S]

theorem Mid.answered (mid : Mid mode s k hand) (popped : mode = .order → hand.isSome)
    (answer : Answer S D) : Stable mode (s.answered mode k k hand answer) := by
  obtain ⟨core, newest, calm⟩ := mid
  cases mode with
  | order =>
    obtain ⟨⟨func, co⟩, rfl⟩ := Option.isSome_iff_exists.mp (popped rfl)
    cases core.held.own func co rfl
    have held := core.held.answered_order answer newest core.sock
    have after := core.held_step held (fun _ there => there) rfl rfl rfl rfl rfl
      fun co inside => List.mem_append_right _ inside
    exact Mid.goOn ⟨after, newest, calm⟩ trivial rfl fun _ _ _ is => by cases is
  | session =>
    cases bears : answer.session with
    | none =>
      simp only [Channel.answered, bears]
      exact core.fail newest
    | some session =>
      simp only [Channel.answered, bears]
      have held := core.held.answered_session (hand.map Prod.fst) newest bears
      have fewer : (s.thread ++ (s.sessions.filter (·.1 ≠ session)).map Prod.snd).Sublist s.waiting :=
        (List.filter_sublist.map _).append_left _
      have after := core.held_step held (fun _ there => there) rfl rfl rfl rfl rfl
        fun co inside => List.mem_append_right _ (fewer.subset inside)
      refine Mid.goOn ⟨after, newest, ?_⟩ trivial rfl fun _ _ _ is => by cases is
      intro closed
      rcases calm closed with free | others
      · left
        rw [free] at fewer
        exact List.sublist_nil.mp fewer
      · exact .inr others

theorem Mid.afterRead (mid : Mid mode s k hand) (popped : mode = .order → hand.isSome)
    (result : Read S D) : Stable mode (s.afterRead mode k k hand result) := by
  cases result with
  | chunk chunk =>
    cases chunk with
    | part => exact mid.goOn ⟨rfl, popped⟩ rfl fun _ _ _ is => by cases is
    | last answer => exact mid.answered popped answer
    | bad => exact mid.core.fail mid.newest
  | failed => exact mid.core.fail mid.newest
  | suspended => exact mid.yield_ ⟨rfl, popped⟩ rfl (fun runs => runs) fun _ _ _ is => by cases is

theorem Mid.read (mid : Mid mode s k hand) (popped : mode = .order → hand.isSome) :
    Stable mode (s.read mode k k hand) :=
  (mid.net _).afterRead popped _

omit [DecidableEq S] in
theorem Mid.afterBlock (mid : Mid mode s k none) (result : Block) :
    Stable mode (s.afterBlock mode k k result) := by
  cases result with
  | returned connected =>
    cases connected with
    | true => exact mid.goOn trivial rfl fun _ _ _ is => by cases is
    | false => exact mid.core.fail mid.newest
  | raised => exact mid.yield_ trivial rfl (fun runs => runs) fun _ _ _ is => by cases is
  | suspended => exact mid.yield_ rfl rfl (fun runs => runs) fun _ _ _ is => by cases is

theorem Mid.loop (mid : Mid mode s k none) : Stable mode (s.loop mode k) := by
  unfold Channel.loop
  split
  next => exact mid.yield_ trivial rfl (fun runs => runs) fun _ _ _ is => by cases is
  next j sock =>
    have here : j = k := by
      have := mid.core.sock j sock
      have := mid.newest
      omega
    subst here
    cases mode with
    | session => exact mid.read fun is => by cases is
    | order =>
      simp only
      split
      next func found =>
        have held := mid.core.held.pop found sock mid.newest
        have head : s.thread.head? = some func := mid.core.held.aligned ▸ found
        have after := mid.core.held_step held (fun _ there => there) rfl rfl rfl rfl rfl (by
          intro co inside
          refine List.mem_append_right _ ?_
          have perm : co ∈ s.thread.head?.toList ++ (s.thread.tail ++ s.sessions.map Prod.snd) := inside
          rw [← List.append_assoc] at perm
          rcases List.mem_append.mp perm with first | second
          · refine List.mem_append_left _ ?_
            cases threads : s.thread with
            | nil =>
              rw [threads] at head
              cases head
            | cons one rest => simpa [threads] using first
          · exact List.mem_append_right _ second)
        refine Mid.read ⟨after, mid.newest, ?_⟩ fun _ => rfl
        intro closed
        cases sock.symm.trans closed
      next found =>
        have request : s.request = [] := List.head?_eq_none_iff.mp found
        have thread : s.thread = [] := mid.core.held.aligned ▸ request
        have same : { s with
            request := s.request.tail
            thread := s.thread.tail
            net := (s.net.block j j).1 } = { s with net := (s.net.block j j).1 } := by
          simp [request, thread]
        rw [same]
        exact (mid.net _).afterBlock _

theorem Stable.resume (stable : Stable mode s) (newest : k + 1 = s.connections) :
    Stable mode (s.resume mode k) := by
  have own := stable.core.own k
  have here : s.connections - 1 = k := by omega
  have core := stable.core
  simp only [Channel.hand, here] at core
  have mid : ∀ {hand}, (s.dispatchers k).popped = hand →
      (∀ i j popped, s.dispatchers k ≠ .closing i j popped) → Mid mode s k hand := by
    intro hand same open_
    refine ⟨same ▸ core, newest, ?_⟩
    intro closed
    rcases stable.settled k newest closed with free | woken | ⟨i, j, popped, is⟩ | given
    · exact .inl free
    · exact .inr (.inl woken)
    · exact absurd is (open_ i j popped)
    · exact .inr (.inr given)
  unfold Channel.resume
  cases phase : s.dispatchers k with
  | reading j popped =>
    rw [phase] at own mid
    obtain ⟨rfl, some_⟩ := own
    exact ((mid rfl fun _ _ _ is => by cases is).net _).afterRead some_ _
  | blocking j =>
    rw [phase] at own mid
    cases own
    exact ((mid rfl fun _ _ _ is => by cases is).net _).afterBlock _
  | closing i j popped =>
    rw [phase] at own core
    obtain ⟨rfl, rfl⟩ := own
    have closed : s.sock = none := by
      cases sock : s.sock with
      | none => rfl
      | some i =>
        have := stable.core.sock i sock
        have same : i = j := by omega
        exact absurd (same ▸ sock) (stable.core.spent _ _ _ _ phase)
    exact (core.net _).afterFailure newest closed
  | forked => exact stable
  | loop => exact stable
  | read => exact stable
  | ended => exact stable

end Pskynet.Socketchannel
