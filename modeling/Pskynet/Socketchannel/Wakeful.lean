import Pskynet.Socketchannel.Attached

set_option autoImplicit false

namespace Pskynet.Socketchannel

variable {S D : Type}

-- The dispatch coroutine is in `suspend`, as a reader.
def Phase.Suspends : Phase → Prop
  | .reading _ _ | .blocking _ => True
  | .forked | .loop | .read _ _ | .closing _ _ _ | .ended => False

def Phase.Closes : Phase → Prop
  | .closing _ _ _ => True
  | .forked | .loop | .read _ _ | .reading _ _ | .blocking _ | .ended => False

namespace Sockets

variable {n : Sockets S D} {k : Nat} {co : Coroutine}

def Waiting (n : Sockets S D) (k : Nat) (co : Coroutine) : Prop :=
  co ∈ n.awake ∨ ((n.pool k).co = some co ∧ (n.pool k).connected = true)

structure Keeps (n t : Sockets S D) (k : Nat) : Prop where
  waiting : ∀ co, Waiting n k co → Waiting t k co
  closing : (t.pool k).closing = (n.pool k).closing

theorem keeps_set {so : Socket S D} (closing : so.closing = (n.pool k).closing)
    (connected : so.connected = (n.pool k).connected)
    (kept : ∀ co, (n.pool k).co = some co → so.co = some co) : Keeps n (n.set k so) k := by
  have pool : (n.set k so).pool k = so := Function.update_self ..
  refine ⟨?_, ?_⟩
  · rintro co (awake | ⟨is, on⟩)
    · exact .inl awake
    · right
      rw [pool]
      exact ⟨kept co is, connected.trans on⟩
  · rw [pool]
    exact closing

theorem keeps_wakeup {so : Socket S D} (closing : so.closing = (n.pool k).closing)
    (co : so.co = (n.pool k).co) : Keeps n ((n.set k so).wakeup k) k := by
  have pool : (n.set k so).pool k = so := Function.update_self ..
  refine ⟨?_, ?_⟩
  · intro other waits
    left
    rw [mem_wakeup, pool, co]
    rcases waits with awake | ⟨is, _⟩
    · exact .inl awake
    · exact .inr is
  · rw [wakeup_pool, Function.update_self, pool]
    exact closing

theorem keeps_data (n : Sockets S D) (k : Nat) (chunk : Chunk S D) : Keeps n (n.data k chunk) k := by
  unfold Sockets.data
  simp only
  split_ifs
  · exact keeps_wakeup rfl rfl
  · exact keeps_set rfl rfl fun _ is => is
  · exact ⟨fun _ waits => waits, rfl⟩

theorem keeps_disconnect (n : Sockets S D) (k : Nat) : Keeps n (n.disconnect k) k := by
  unfold Sockets.disconnect
  split_ifs
  · exact keeps_wakeup rfl rfl
  · exact ⟨fun _ waits => waits, rfl⟩

theorem keeps_read (n : Sockets S D) (k : Nat) : Keeps n (n.read k k).1 k := by
  unfold Sockets.read
  simp only
  split
  · split
    · exact keeps_set rfl rfl fun _ is => is
    · split
      · split
        · exact keeps_set rfl rfl fun _ is => is
        next free =>
          refine keeps_set rfl rfl ?_
          intro _ is
          cases free.symm.trans is
      · exact ⟨fun _ waits => waits, rfl⟩
  · exact ⟨fun _ waits => waits, rfl⟩

theorem keeps_block (n : Sockets S D) (k : Nat) : Keeps n (n.block k k).1 k := by
  unfold Sockets.block
  simp only
  split
  · split
    · exact ⟨fun _ waits => waits, rfl⟩
    · split
      · exact keeps_set rfl rfl fun _ is => is
      next free =>
        refine keeps_set rfl rfl ?_
        intro _ is
        cases free.symm.trans is
  · exact ⟨fun _ waits => waits, rfl⟩

theorem keeps_wakeupClosing (n : Sockets S D) (k : Nat) : Keeps n (n.wakeupClosing k) k := by
  refine ⟨?_, ?_⟩
  · rintro co (awake | waits)
    · exact .inl ((mem_wakeupClosing n k co).mpr (.inl awake))
    · right
      rw [wakeupClosing_pool]
      exact waits
  · rw [wakeupClosing_pool]

theorem Keeps.trans {t u : Sockets S D} (first : Keeps n t k) (second : Keeps t u k) :
    Keeps n u k where
  waiting := fun co waits => second.waiting co (first.waiting co waits)
  closing := second.closing.trans first.closing

theorem keeps_resumeRead (n : Sockets S D) (k : Nat) : Keeps n (n.resumeRead k).1 k := by
  unfold Sockets.resumeRead
  simp only
  split
  · exact (keeps_wakeupClosing n k).trans (keeps_set rfl rfl fun _ is => is)
  · exact keeps_wakeupClosing n k

theorem resumeRead_wakes (is : (n.pool k).closing = some co) : co ∈ (n.resumeRead k).1.awake := by
  have woken : co ∈ (n.wakeupClosing k).awake := (mem_wakeupClosing n k co).mpr (.inr is)
  unfold Sockets.resumeRead
  simp only
  split
  · exact woken
  · exact woken

theorem resumeRead_co (n : Sockets S D) (k : Nat) :
    ((n.resumeRead k).1.pool k).co = (n.pool k).co := by
  unfold Sockets.resumeRead
  simp only [wakeupClosing_pool]
  split
  · simp [Sockets.set]
  · rw [wakeupClosing_pool]

theorem read_suspended (is : (n.read k k).2 = .suspended) :
    Waiting (n.read k k).1 k (.dispatch k) := by
  right
  unfold Sockets.read at is ⊢
  simp only at is ⊢
  split at is
  next pooled =>
    split at is
    · cases is
    next buffer =>
      split at is
      next ready =>
        split at is
        · cases is
        next =>
          simp only [pooled, if_true, buffer, ready]
          have connected := (Bool.and_eq_true_iff.mp ready).1
          simp [Sockets.set, connected]
      · cases is
  · cases is

theorem block_suspended (is : (n.block k k).2 = .suspended) :
    Waiting (n.block k k).1 k (.dispatch k) := by
  right
  unfold Sockets.block at is ⊢
  simp only at is ⊢
  split at is
  next ready =>
    split at is
    · cases is
    next free =>
      split at is
      · cases is
      next =>
        simp only [ready, if_true, free]
        have connected := (Bool.and_eq_true_iff.mp ready).2
        simp [Sockets.set, connected]
  · cases is

theorem read_co (other : (n.read k k).2 ≠ .suspended) :
    ((n.read k k).1.pool k).co = (n.pool k).co := by
  unfold Sockets.read at other ⊢
  simp only at other ⊢
  split
  next pooled =>
    split
    · simp [Sockets.set]
    next buffer =>
      split
      next ready =>
        split
        · simp [Sockets.set]
        next free => simp [pooled, buffer, ready, free] at other
      · rfl
  · rfl

theorem block_co (other : (n.block k k).2 ≠ .suspended) :
    ((n.block k k).1.pool k).co = (n.pool k).co := by
  unfold Sockets.block at other ⊢
  simp only at other ⊢
  split
  next ready =>
    split
    · rfl
    next required =>
      split
      · simp [Sockets.set]
      next free =>
        have ready := Bool.and_eq_true_iff.mp ready
        simp [ready.1, ready.2, required, free] at other
  · rfl

theorem close_waits (free : (n.pool k).co = none) (waits : (n.close k co).2 ≠ true) :
    Waiting (n.close k co).1 k co := by
  right
  unfold Sockets.close at waits ⊢
  simp only [free] at waits ⊢
  split_ifs at waits with pooled connected
  · simp [pooled, connected, Sockets.set]
  · exact absurd rfl waits
  · exact absurd rfl waits

theorem close_cases (n : Sockets S D) (k : Nat) (co : Coroutine) :
    n.close k co = (n, true) ∨
      ((n.pool k).connected = false ∧ n.close k co = (n.finishClose k, true)) ∨
      ((n.pool k).co.isSome ∧ n.close k co = (n.set k { n.pool k with closing := some co }, false)) ∨
      ((n.pool k).co = none ∧ (n.pool k).connected = true ∧
        n.close k co = (n.set k { n.pool k with co := some co }, false)) := by
  unfold Sockets.close
  simp only
  split
  · split
    next connected =>
      split
      next other is =>
        split
        · exact .inl rfl
        · exact .inr (.inr (.inl ⟨by rw [is]; rfl, rfl⟩))
      next free => exact .inr (.inr (.inr ⟨free, connected, rfl⟩))
    next lost => exact .inr (.inl ⟨by simpa using lost, rfl⟩)
  · exact .inl rfl

theorem Attached.reads {phase : Phase} (attached : Attached n k phase)
    (reader : (n.pool k).co.isSome) : phase.Suspends := by
  have none_ : ¬ Rests n k := by
    intro rests
    rw [rests.co] at reader
    cases reader
  cases phase with
  | forked => exact absurd attached none_
  | loop => exact absurd attached none_
  | read => exact absurd attached none_
  | reading => trivial
  | blocking => trivial
  | closing => exact attached
  | ended => exact attached

theorem Waiting.erase {other : Coroutine} (waits : Waiting n k co) (apart : co ≠ other) :
    Waiting { n with awake := n.awake.erase other } k co := by
  rcases waits with awake | there
  · exact .inl ((List.mem_erase_of_ne apart).mpr awake)
  · exact .inr there

end Sockets

open Channel Sockets

variable {mode : Mode} {s t : Channel S D} {k : Nat} {hand : Option (Nat × Option Nat)}

structure Wakeful (s : Channel S D) (k : Nat) : Prop where
  dispatch : (s.dispatchers k).Suspends ∨ (s.dispatchers k).Closes → Waiting s.net k (.dispatch k)
  closer : (s.closers k).isSome → Waiting s.net k (.closer k) ∨
    ((s.net.pool k).closing = some (.closer k) ∧ (s.dispatchers k).Suspends)
  apart : (s.closers k).isSome → ¬ (s.dispatchers k).Closes

structure Up (s : Channel S D) (k : Nat) : Prop where
  closer : (s.closers k).isSome → Waiting s.net k (.closer k)
  sock : ∀ i, s.sock = some i → i = k
  closed : s.sock = some k → s.closers k = none
  free : s.sock = some k → (s.net.pool k).co = none

theorem Wakeful.same (wakeful : Wakeful s k) (net : t.net = s.net)
    (dispatchers : t.dispatchers k = s.dispatchers k) (closers : t.closers k = s.closers k) :
    Wakeful t k where
  dispatch := by
    rw [net, dispatchers]
    exact wakeful.dispatch
  closer := by
    rw [net, dispatchers, closers]
    exact wakeful.closer
  apart := by
    rw [dispatchers, closers]
    exact wakeful.apart

theorem Wakeful.keeps (wakeful : Wakeful s k) {n : Sockets S D} (keeps : Keeps s.net n k) :
    Wakeful { s with net := n } k where
  dispatch := fun waits => keeps.waiting _ (wakeful.dispatch waits)
  closer := by
    intro closes
    rcases wakeful.closer closes with waits | ⟨is, reads⟩
    · exact .inl (keeps.waiting _ waits)
    · exact .inr ⟨keeps.closing.trans is, reads⟩
  apart := wakeful.apart

theorem Core.closer_of_sock (core : Core mode s hand) (there : s.sock = some k) :
    s.closers k = none := by
  cases closer : s.closers k with
  | none => rfl
  | some after => exact absurd there (core.closed k after closer)

theorem Wakeful.up (wakeful : Wakeful s k) (stable : Stable mode s) (wired : Wired s)
    (newest : k + 1 = s.connections) (reads : ¬ (s.dispatchers k).Suspends)
    (closes : ¬ (s.dispatchers k).Closes) : Up s k where
  closer := by
    intro closer
    rcases wakeful.closer closer with waits | ⟨_, is⟩
    · exact waits
    · exact absurd is reads
  sock := by
    intro i there
    have := stable.core.sock i there
    omega
  closed := stable.core.closer_of_sock
  free := by
    intro there
    have attached := wired.attached k there
    cases phase : s.dispatchers k with
    | forked =>
      rw [phase] at attached
      exact Rests.co attached
    | loop =>
      rw [phase] at attached
      exact Rests.co attached
    | read j popped =>
      rw [phase] at attached
      exact Rests.co attached
    | ended =>
      rw [phase] at attached
      exact attached.elim
    | reading j popped =>
      rw [phase] at reads
      exact absurd trivial reads
    | blocking j =>
      rw [phase] at reads
      exact absurd trivial reads
    | closing i j popped =>
      rw [phase] at closes
      exact absurd trivial closes

theorem Up.setPhase (up : Up s k) {phase : Phase} {running : Option Nat} (reads : ¬ phase.Suspends)
    (closes : ¬ phase.Closes) : Wakeful { s.setPhase k phase with running := running } k := by
  have here : (s.setPhase k phase).dispatchers k = phase := Function.update_self ..
  refine ⟨?_, fun closer => .inl (up.closer closer), ?_⟩
  · intro waits
    simp only [here] at waits
    rcases waits with is | is
    · exact absurd is reads
    · exact absurd is closes
  · intro _
    simp only [here]
    exact closes

theorem wakeful_suspend {phase : Phase}
    (closer : (s.closers k).isSome → Waiting s.net k (.closer k))
    (waits : Waiting s.net k (.dispatch k)) (closes : ¬ phase.Closes) :
    Wakeful (s.yield_ k phase) k := by
  have here : (s.yield_ k phase).dispatchers k = phase := Function.update_self ..
  refine ⟨fun _ => waits, fun closes => .inl (closer closes), ?_⟩
  intro _
  rw [here]
  exact closes

theorem Up.afterFailure (up : Up s k) (j : Nat) : Wakeful (s.afterFailure mode k j hand) k := by
  have woken : Up ((s.deliver (hand.bind Prod.snd) (.socketError j)).wakeupAll mode j) k := by
    cases mode <;> exact ⟨up.closer, up.sock, up.closed, up.free⟩
  exact woken.setPhase id id

theorem Up.fail (up : Up s k) (j : Nat) : Wakeful (s.fail mode k j hand) k := by
  unfold Channel.fail
  split
  · exact up.afterFailure j
  next i there =>
    cases up.sock i there
    have none_ := up.closed there
    have co := up.free there
    simp only
    split_ifs with returned
    · apply Up.afterFailure
      refine ⟨?_, ?_, ?_, ?_⟩
      · intro closer
        simp only [none_] at closer
        cases closer
      · intro _ there
        cases there
      · intro there
        cases there
      · intro there
        cases there
    · refine ⟨?_, ?_, ?_⟩
      · exact fun _ => close_waits co returned
      · intro closer
        simp only [Channel.yield_, Channel.setPhase, none_] at closer
        cases closer
      · intro closer
        simp only [Channel.yield_, Channel.setPhase, none_] at closer
        cases closer

theorem Up.afterBlock (up : Up s k) {result : Block} (goes : result ≠ .suspended) :
    Wakeful (s.afterBlock mode k k result) k := by
  cases result with
  | returned connected =>
    cases connected with
    | true => exact up.setPhase id id
    | false => exact up.fail k
  | raised => exact up.setPhase id id
  | suspended => exact absurd rfl goes

theorem Wakeful.afterClose (wakeful : Wakeful s k) (j : Nat) (after : After) :
    Wakeful (s.afterClose mode j after) k := by
  cases after <;> cases mode <;> exact wakeful.same rfl rfl rfl

theorem Wakeful.closeChannelSocket (wakeful : Wakeful s k) (stable : Stable mode s) (wired : Wired s)
    (sock : ∀ i, s.sock = some i → i = k) (after : After) :
    Wakeful (s.closeChannelSocket mode after) k := by
  unfold Channel.closeChannelSocket
  split
  · exact wakeful.afterClose 0 after
  next j there =>
    cases sock j there
    have none_ := stable.core.closer_of_sock there
    have attached := wired.attached k there
    have spent : ¬ (s.dispatchers k).Closes := by
      cases phase : s.dispatchers k with
      | closing i i' popped => exact absurd there (stable.core.spent _ _ _ _ phase)
      | _ => exact id
    -- The socket is closed without waiting.
    have returned : ∀ n : Sockets S D, Waiting n k (.dispatch k) ∨ ¬ (s.dispatchers k).Suspends →
        Wakeful (Channel.afterClose mode { s with sock := none, net := n } k after) k := by
      intro n waiting
      apply Wakeful.afterClose
      refine ⟨?_, ?_, ?_⟩
      · rintro (reads | closes)
        · rcases waiting with waits | other
          · exact waits
          · exact absurd reads other
        · exact absurd closes spent
      · intro closer
        simp only [none_] at closer
        cases closer
      · intro closer
        simp only [none_] at closer
        cases closer
    rcases close_cases s.net k (.closer k) with is | ⟨lost, is⟩ | ⟨reader, is⟩ | ⟨free, connected, is⟩
    · simp only [is, if_true]
      refine returned s.net ?_
      by_cases reads : (s.dispatchers k).Suspends
      · exact .inl (wakeful.dispatch (.inl reads))
      · exact .inr reads
    · simp only [is, if_true]
      refine returned _ ?_
      by_cases reads : (s.dispatchers k).Suspends
      · rcases wakeful.dispatch (.inl reads) with awake | ⟨_, on⟩
        · exact .inl (.inl awake)
        · cases lost.symm.trans on
      · exact .inr reads
    · simp only [is, Bool.false_eq_true, if_false]
      have reads := attached.reads reader
      refine ⟨?_, ?_, fun _ => spent⟩
      · intro waits
        rcases wakeful.dispatch waits with awake | waits
        · exact .inl awake
        · right
          simpa [Sockets.set] using waits
      · intro _
        exact .inr ⟨by simp [Sockets.set], reads⟩
    · simp only [is, Bool.false_eq_true, if_false]
      refine ⟨?_, ?_, fun _ => spent⟩
      · intro waits
        rcases wakeful.dispatch waits with awake | ⟨co, _⟩
        · exact .inl awake
        · cases free.symm.trans co
      · intro _
        left
        right
        simp [Sockets.set, connected]

variable [DecidableEq S]

theorem Up.answered (up : Up s k) (j : Nat) (answer : Answer S D) :
    Wakeful (s.answered mode k j hand answer) k := by
  cases mode with
  | order =>
    apply Up.setPhase
    · exact ⟨up.closer, up.sock, up.closed, up.free⟩
    · exact id
    · exact id
  | session =>
    unfold Channel.answered
    simp only
    split
    · exact up.fail j
    · apply Up.setPhase
      · exact ⟨up.closer, up.sock, up.closed, up.free⟩
      · exact id
      · exact id

theorem Up.afterRead (up : Up s k) (j : Nat) {result : Read S D} (goes : result ≠ .suspended) :
    Wakeful (s.afterRead mode k j hand result) k := by
  cases result with
  | chunk chunk =>
    cases chunk with
    | part => exact up.setPhase id id
    | last answer => exact up.answered j answer
    | bad => exact up.fail j
  | failed => exact up.fail j
  | suspended => exact absurd rfl goes

theorem Up.read (up : Up s k) : Wakeful (s.read mode k k hand) k := by
  have keeps := keeps_read s.net k
  have closer := fun closes => keeps.waiting _ (up.closer closes)
  unfold Channel.read
  by_cases suspended : (s.net.read k k).2 = .suspended
  · simp only [suspended]
    exact wakeful_suspend closer (read_suspended suspended) id
  · have after : Up { s with net := (s.net.read k k).1 } k :=
      ⟨closer, up.sock, up.closed, fun there => (read_co suspended).trans (up.free there)⟩
    exact after.afterRead k suspended

theorem Up.loop (up : Up s k) : Wakeful (s.loop mode k) k := by
  unfold Channel.loop
  split
  · exact up.setPhase id id
  next j there =>
    cases up.sock j there
    cases mode with
    | session => exact up.read
    | order =>
      have popped : Up { s with request := s.request.tail, thread := s.thread.tail } k :=
        ⟨up.closer, up.sock, up.closed, up.free⟩
      simp only
      split
      · exact popped.read
      · have keeps := keeps_block s.net k
        have closer := fun closes => keeps.waiting _ (up.closer closes)
        by_cases suspended : (s.net.block k k).2 = .suspended
        · simp only [suspended]
          exact wakeful_suspend closer (block_suspended suspended) id
        · apply Up.afterBlock
          · exact ⟨closer, up.sock, up.closed,
              fun there => (block_co suspended).trans (up.free there)⟩
          · exact suspended

theorem Wakeful.resume (wakeful : Wakeful s k) (stable : Stable mode s) (wired : Wired s)
    (newest : k + 1 = s.connections) (woken : Coroutine.dispatch k ∈ s.net.awake) :
    Wakeful (Channel.resume mode
      { s with net := { s.net with awake := s.net.awake.erase (.dispatch k) } } k) k := by
  have own := stable.core.own k
  have sock : ∀ i, s.sock = some i → i = k := by
    intro i there
    have := stable.core.sock i there
    omega
  have closed : s.sock = some k → s.closers k = none := stable.core.closer_of_sock
  have asleep : ∀ co, co ≠ .dispatch k → Waiting s.net k co →
      Waiting { s.net with awake := s.net.awake.erase (.dispatch k) } k co :=
    fun _ apart waits => waits.erase apart
  -- No reader waits on the socket any more.
  have free : (s.dispatchers k).Suspends → s.sock = some k → (s.net.pool k).co = none := by
    intro reads there
    have attached := wired.attached k there
    have suspended : Suspended s.net k := by
      cases phase : s.dispatchers k with
      | reading j popped =>
        rw [phase] at attached
        exact attached
      | blocking j =>
        rw [phase] at attached
        exact attached
      | _ =>
        rw [phase] at reads
        exact reads.elim
    exact (suspended.erase wired.sound.nodup woken).co
  have stale : ¬ (s.dispatchers k).Suspends → ¬ (s.dispatchers k).Closes →
      Wakeful { s with net := { s.net with awake := s.net.awake.erase (.dispatch k) } } k := by
    intro reads closes
    refine ⟨?_, ?_, fun _ => closes⟩
    · rintro (is | is)
      · exact absurd is reads
      · exact absurd is closes
    · intro closer
      rcases wakeful.closer closer with waits | ⟨_, is⟩
      · exact .inl (asleep _ (by simp) waits)
      · exact absurd is reads
  unfold Channel.resume
  simp only
  cases phase : s.dispatchers k with
  | reading j popped =>
    rw [phase] at own
    obtain ⟨rfl, _⟩ := own
    have keeps := keeps_resumeRead { s.net with awake := s.net.awake.erase (.dispatch j) } j
    apply Up.afterRead
    · refine ⟨?_, sock, closed, ?_⟩
      · intro closer
        rcases wakeful.closer closer with waits | ⟨is, _⟩
        · exact keeps.waiting _ (asleep _ (by simp) waits)
        · left
          exact resumeRead_wakes is
      · intro there
        rw [resumeRead_co]
        exact free (by rw [phase]; trivial) there
    · unfold Sockets.resumeRead
      simp only
      split
      · simp
      · simp
  | blocking j =>
    rw [phase] at own
    cases own
    have keeps := keeps_wakeupClosing { s.net with awake := s.net.awake.erase (.dispatch k) } k
    apply Up.afterBlock
    · refine ⟨?_, sock, closed, ?_⟩
      · intro closer
        rcases wakeful.closer closer with waits | ⟨is, _⟩
        · exact keeps.waiting _ (asleep _ (by simp) waits)
        · left
          exact (mem_wakeupClosing _ k _).mpr (.inr is)
      · intro there
        simp only [resumeBlock, wakeupClosing_pool]
        exact free (by rw [phase]; trivial) there
    · simp [resumeBlock]
  | closing i j popped =>
    rw [phase] at own
    obtain ⟨rfl, rfl⟩ := own
    have spent := stable.core.spent _ _ _ _ phase
    apply Up.afterFailure
    refine ⟨?_, sock, closed, fun there => absurd there spent⟩
    intro closer
    refine absurd ?_ (wakeful.apart closer)
    rw [phase]
    trivial
  | forked =>
    rw [phase] at stale
    exact stale id id
  | loop =>
    rw [phase] at stale
    exact stale id id
  | read j popped =>
    rw [phase] at stale
    exact stale id id
  | ended =>
    rw [phase] at stale
    exact stale id id

end Pskynet.Socketchannel
