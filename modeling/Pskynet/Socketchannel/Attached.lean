import Pskynet.Socketchannel.Failures

set_option autoImplicit false

namespace Pskynet.Socketchannel

variable {S D : Type}

def Coroutine.index : Coroutine → Nat
  | .dispatch k | .closer k => k

namespace Sockets

variable {n : Sockets S D} {i j k c : Nat}

-- The sockets of `c` connections, each used by the coroutines of its own connection.
structure Sound (n : Sockets S D) (c : Nat) : Prop where
  nodup : n.awake.Nodup
  bound : ∀ co ∈ n.awake, co.index < c
  fresh : ∀ j, c ≤ j →
    (n.pool j).co = none ∧ (n.pool j).closing = none ∧ (n.pool j).connected = false
  co : ∀ j co, (n.pool j).co = some co → co.index = j
  closing : ∀ j co, (n.pool j).closing = some co → co.index = j

theorem mem_wake (n : Sockets S D) (co other : Coroutine) :
    other ∈ (n.wake co).awake ↔ other ∈ n.awake ∨ other = co := by
  unfold wake
  split_ifs with there
  · constructor
    · exact .inl
    · rintro (old | rfl)
      · exact old
      · exact there
  · simp

theorem wake_pool (n : Sockets S D) (co : Coroutine) : (n.wake co).pool = n.pool := by
  unfold wake
  split_ifs <;> rfl

theorem wakeup_pool (n : Sockets S D) (j : Nat) :
    (n.wakeup j).pool = Function.update n.pool j { n.pool j with co := none } := by
  unfold wakeup
  split
  · exact wake_pool _ _
  next free =>
    rw [← free, Function.update_eq_self]

theorem mem_wakeup (n : Sockets S D) (j : Nat) (co : Coroutine) :
    co ∈ (n.wakeup j).awake ↔ co ∈ n.awake ∨ (n.pool j).co = some co := by
  unfold wakeup
  split
  next other is =>
    rw [mem_wake, is, Option.some.injEq]
    exact or_congr_right eq_comm
  next free => simp [free]

theorem wakeupClosing_pool (n : Sockets S D) (j : Nat) : (n.wakeupClosing j).pool = n.pool := by
  unfold wakeupClosing
  split
  · exact wake_pool _ _
  · rfl

theorem mem_wakeupClosing (n : Sockets S D) (j : Nat) (co : Coroutine) :
    co ∈ (n.wakeupClosing j).awake ↔ co ∈ n.awake ∨ (n.pool j).closing = some co := by
  unfold wakeupClosing
  split
  next other is =>
    rw [mem_wake, is, Option.some.injEq]
    exact or_congr_right eq_comm
  next free => simp [free]

theorem Sound.wake (sound : Sound n c) {co : Coroutine} (bound : co.index < c) :
    Sound (n.wake co) c where
  nodup := by
    unfold Sockets.wake
    split_ifs with there
    · exact sound.nodup
    · exact sound.nodup.append (List.nodup_singleton _) (List.disjoint_singleton.mpr there)
  bound := by
    intro other inside
    rcases (mem_wake n co other).mp inside with old | rfl
    · exact sound.bound other old
    · exact bound
  fresh := by
    rw [wake_pool]
    exact sound.fresh
  co := by
    rw [wake_pool]
    exact sound.co
  closing := by
    rw [wake_pool]
    exact sound.closing

theorem Sound.set (sound : Sound n c) (bound : j < c) {so : Socket S D}
    (co : ∀ co, so.co = some co → co.index = j)
    (closing : ∀ co, so.closing = some co → co.index = j) : Sound (n.set j so) c where
  nodup := sound.nodup
  bound := sound.bound
  fresh := by
    intro i outside
    have apart : i ≠ j := by omega
    simp only [Sockets.set, Function.update_of_ne apart]
    exact sound.fresh i outside
  co := by
    intro i w is
    by_cases here : i = j
    · subst here
      simp only [Sockets.set, Function.update_self] at is
      exact co w is
    · simp only [Sockets.set, Function.update_of_ne here] at is
      exact sound.co i w is
  closing := by
    intro i w is
    by_cases here : i = j
    · subst here
      simp only [Sockets.set, Function.update_self] at is
      exact closing w is
    · simp only [Sockets.set, Function.update_of_ne here] at is
      exact sound.closing i w is

theorem Sound.wakeup (sound : Sound n c) (bound : j < c) : Sound (n.wakeup j) c := by
  unfold Sockets.wakeup
  split
  next co is =>
    have same := sound.co j co is
    have set : Sound (n.set j { n.pool j with co := none }) c :=
      sound.set bound (fun _ none_ => by cases none_) (sound.closing j)
    refine set.wake ?_
    omega
  · exact sound

theorem Sound.wakeupClosing (sound : Sound n c) (bound : j < c) : Sound (n.wakeupClosing j) c := by
  unfold Sockets.wakeupClosing
  split
  next co is =>
    have same := sound.closing j co is
    refine sound.wake ?_
    omega
  · exact sound

theorem Sound.data (sound : Sound n c) (bound : j < c) (chunk : Chunk S D) :
    Sound (n.data j chunk) c := by
  unfold Sockets.data
  simp only
  split_ifs
  · refine Sound.wakeup ?_ bound
    exact sound.set bound (sound.co j) (sound.closing j)
  · exact sound.set bound (sound.co j) (sound.closing j)
  · exact sound

theorem Sound.disconnect (sound : Sound n c) (bound : j < c) : Sound (n.disconnect j) c := by
  unfold Sockets.disconnect
  split_ifs
  · refine Sound.wakeup ?_ bound
    exact sound.set bound (sound.co j) (sound.closing j)
  · exact sound

theorem Sound.finishClose (sound : Sound n c) (bound : j < c) : Sound (n.finishClose j) c :=
  sound.set bound (sound.co j) (sound.closing j)

theorem Sound.read (sound : Sound n c) (bound : j < c) : Sound (n.read j j).1 c := by
  unfold Sockets.read
  simp only
  split
  · split
    · exact sound.set bound (sound.co j) (sound.closing j)
    · split
      · split
        · exact sound.set bound (sound.co j) (sound.closing j)
        · refine sound.set bound ?_ (sound.closing j)
          intro co is
          cases is
          rfl
      · exact sound
  · exact sound

theorem Sound.resumeRead (sound : Sound n c) (bound : j < c) : Sound (n.resumeRead j).1 c := by
  have after := sound.wakeupClosing bound
  unfold Sockets.resumeRead
  simp only
  split
  · exact after.set bound (after.co j) (after.closing j)
  · exact after

theorem Sound.block (sound : Sound n c) (bound : j < c) : Sound (n.block j j).1 c := by
  unfold Sockets.block
  simp only
  split
  · split
    · exact sound
    · split
      · exact sound.set bound (sound.co j) (sound.closing j)
      · refine sound.set bound ?_ (sound.closing j)
        intro co is
        cases is
        rfl
  · exact sound

theorem Sound.close (sound : Sound n c) (bound : j < c) {by_ : Coroutine} (own : by_.index = j) :
    Sound (n.close j by_).1 c := by
  have index : ∀ co, some by_ = some co → co.index = j := by
    intro co is
    cases is
    exact own
  unfold Sockets.close
  simp only
  split
  · split
    · split
      · split
        · exact sound
        · exact sound.set bound (sound.co j) index
      · exact sound.set bound index (sound.closing j)
    · exact sound.finishClose bound
  · exact sound

theorem Sound.erase (sound : Sound n c) (co : Coroutine) :
    Sound { n with awake := n.awake.erase co } c where
  nodup := sound.nodup.erase co
  bound := fun other inside => sound.bound other (List.mem_of_mem_erase inside)
  fresh := sound.fresh
  co := sound.co
  closing := sound.closing

theorem Sound.opened (sound : Sound n c) : Sound (n.set c .opened) (c + 1) where
  nodup := sound.nodup
  bound := fun co inside => Nat.lt_succ_of_lt (sound.bound co inside)
  fresh := by
    intro j outside
    have apart : j ≠ c := by omega
    simp only [Sockets.set, Function.update_of_ne apart]
    exact sound.fresh j (by omega)
  co := by
    intro j co is
    by_cases here : j = c
    · simp [Sockets.set, here, Socket.opened] at is
    · simp only [Sockets.set, Function.update_of_ne here] at is
      exact sound.co j co is
  closing := by
    intro j co is
    by_cases here : j = c
    · simp [Sockets.set, here, Socket.opened] at is
    · simp only [Sockets.set, Function.update_of_ne here] at is
      exact sound.closing j co is

structure Rests (n : Sockets S D) (k : Nat) : Prop where
  pooled : (n.pool k).pooled = true
  closing : (n.pool k).closing = none
  co : (n.pool k).co = none
  awake : Coroutine.dispatch k ∉ n.awake
  required : (n.pool k).connected = true → (n.pool k).readRequired = false

structure Suspended (n : Sockets S D) (k : Nat) : Prop where
  pooled : (n.pool k).pooled = true
  closing : (n.pool k).closing = none
  waits : ((n.pool k).co = some (.dispatch k) ∧ Coroutine.dispatch k ∉ n.awake) ∨
    (n.pool k).co = none ∧ Coroutine.dispatch k ∈ n.awake ∧
      ((n.pool k).connected = true → (n.pool k).readRequired = false)

def Attached (n : Sockets S D) (k : Nat) : Phase → Prop
  | .forked | .loop | .read _ _ => Rests n k
  | .reading _ _ | .blocking _ => Suspended n k
  | .closing _ _ _ | .ended => False

theorem Attached.cases {phase : Phase} {other : Sockets S D} (attached : Attached n k phase)
    (rests : Rests n k → Rests other k) (suspended : Suspended n k → Suspended other k) :
    Attached other k phase := by
  cases phase with
  | forked => exact rests attached
  | loop => exact rests attached
  | read => exact rests attached
  | reading => exact suspended attached
  | blocking => exact suspended attached
  | closing => exact attached
  | ended => exact attached

theorem Attached.of_same {phase : Phase} {other : Sockets S D} (attached : Attached n k phase)
    (pool : other.pool k = n.pool k)
    (awake : Coroutine.dispatch k ∈ other.awake ↔ Coroutine.dispatch k ∈ n.awake) :
    Attached other k phase := by
  refine attached.cases ?_ ?_
  · rintro ⟨pooled, closing, co, asleep, required⟩
    exact ⟨pool ▸ pooled, pool ▸ closing, pool ▸ co, fun inside => asleep (awake.mp inside),
      pool ▸ required⟩
  · rintro ⟨pooled, closing, waits⟩
    refine ⟨pool ▸ pooled, pool ▸ closing, ?_⟩
    rw [pool, awake]
    exact waits

theorem Sound.dispatch_of_co (sound : Sound n c) (apart : j ≠ k) :
    (n.pool j).co ≠ some (.dispatch k) := by
  intro is
  exact apart (sound.co j _ is).symm

theorem Attached.wakeup {phase : Phase} (attached : Attached n k phase) {so : Socket S D}
    (pooled : so.pooled = (n.pool k).pooled) (closing : so.closing = (n.pool k).closing)
    (co : so.co = (n.pool k).co) (required : so.connected = true → so.readRequired = false) :
    Attached ((n.set k so).wakeup k) k phase := by
  have pool : ((n.set k so).wakeup k).pool k = { so with co := none } := by
    simp [wakeup_pool, Sockets.set]
  have awake : Coroutine.dispatch k ∈ ((n.set k so).wakeup k).awake ↔
      Coroutine.dispatch k ∈ n.awake ∨ (n.pool k).co = some (.dispatch k) := by
    rw [mem_wakeup, ← co]
    simp [Sockets.set]
  refine attached.cases ?_ ?_
  · intro rests
    refine ⟨?_, ?_, ?_, ?_, ?_⟩
    · rw [pool]
      exact pooled.trans rests.pooled
    · rw [pool]
      exact closing.trans rests.closing
    · rw [pool]
    · rw [awake, rests.co]
      simpa using rests.awake
    · rw [pool]
      exact required
  · intro suspended
    refine ⟨?_, ?_, .inr ⟨?_, ?_, ?_⟩⟩
    · rw [pool]
      exact pooled.trans suspended.pooled
    · rw [pool]
      exact closing.trans suspended.closing
    · rw [pool]
    · rw [awake]
      rcases suspended.waits with ⟨co, _⟩ | ⟨_, awake, _⟩
      · exact .inr co
      · exact .inl awake
    · rw [pool]
      exact required

theorem Attached.wakeupOther {phase : Phase} (attached : Attached n k phase) (sound : Sound n c)
    (apart : k ≠ j) {so : Socket S D} (co : so.co = (n.pool j).co) :
    Attached ((n.set j so).wakeup j) k phase := by
  refine attached.of_same ?_ ?_
  · rw [wakeup_pool, Function.update_of_ne apart]
    exact Function.update_of_ne apart ..
  · rw [mem_wakeup]
    have none_ := sound.dispatch_of_co apart.symm
    rw [← co] at none_
    simpa [Sockets.set] using fun is => absurd is none_

theorem Attached.set {phase : Phase} (attached : Attached n k phase) {so : Socket S D}
    (pooled : so.pooled = (n.pool k).pooled) (closing : so.closing = (n.pool k).closing)
    (co : so.co = (n.pool k).co) (connected : so.connected = (n.pool k).connected)
    (required : so.readRequired = (n.pool k).readRequired) : Attached (n.set k so) k phase := by
  have pool : (n.set k so).pool k = so := Function.update_self ..
  refine attached.cases ?_ ?_
  · intro rests
    refine ⟨?_, ?_, ?_, rests.awake, ?_⟩
    · rw [pool]
      exact pooled.trans rests.pooled
    · rw [pool]
      exact closing.trans rests.closing
    · rw [pool]
      exact co.trans rests.co
    · rw [pool, connected, required]
      exact rests.required
  · intro suspended
    refine ⟨?_, ?_, ?_⟩
    · rw [pool]
      exact pooled.trans suspended.pooled
    · rw [pool]
      exact closing.trans suspended.closing
    · rw [pool, co, connected, required]
      exact suspended.waits

theorem Attached.data {phase : Phase} (attached : Attached n k phase) (sound : Sound n c) (j : Nat)
    (chunk : Chunk S D) : Attached (n.data j chunk) k phase := by
  unfold Sockets.data
  simp only
  by_cases here : k = j
  · subst here
    split_ifs
    · exact attached.wakeup rfl rfl rfl fun _ => rfl
    · exact attached.set rfl rfl rfl rfl rfl
    · exact attached
  · split_ifs
    · exact attached.wakeupOther sound here rfl
    · exact attached.of_same (Function.update_of_ne here ..) Iff.rfl
    · exact attached

theorem Attached.disconnect {phase : Phase} (attached : Attached n k phase) (sound : Sound n c)
    (j : Nat) : Attached (n.disconnect j) k phase := by
  unfold Sockets.disconnect
  by_cases here : k = j
  · subst here
    split_ifs
    · exact attached.wakeup rfl rfl rfl fun is => by cases is
    · exact attached
  · split_ifs
    · exact attached.wakeupOther sound here rfl
    · exact attached

theorem Suspended.erase (suspended : Suspended n k) (nodup : n.awake.Nodup)
    (woken : Coroutine.dispatch k ∈ n.awake) :
    Rests { n with awake := n.awake.erase (.dispatch k) } k := by
  rcases suspended.waits with ⟨_, asleep⟩ | ⟨co, _, required⟩
  · exact absurd woken asleep
  · exact ⟨suspended.pooled, suspended.closing, co, nodup.not_mem_erase, required⟩

theorem Rests.set {so : Socket S D} (rests : Rests n k)
    (pooled : so.pooled = (n.pool k).pooled) (closing : so.closing = (n.pool k).closing)
    (co : so.co = (n.pool k).co) (connected : so.connected = (n.pool k).connected)
    (required : so.readRequired = (n.pool k).readRequired) : Rests (n.set k so) k := by
  have attached : Attached n k .loop := rests
  exact attached.set pooled closing co connected required

theorem Rests.suspend {so : Socket S D} (rests : Rests n k)
    (pooled : so.pooled = (n.pool k).pooled) (closing : so.closing = (n.pool k).closing)
    (co : so.co = some (.dispatch k)) : Suspended (n.set k so) k := by
  have pool : (n.set k so).pool k = so := Function.update_self ..
  refine ⟨?_, ?_, .inl ⟨?_, rests.awake⟩⟩
  · rw [pool]
    exact pooled.trans rests.pooled
  · rw [pool]
    exact closing.trans rests.closing
  · rw [pool]
    exact co

theorem Rests.read (rests : Rests n k) {after : Sockets S D} {result : Read S D}
    (read : n.read k k = (after, result)) :
    (∀ chunk, result = .chunk chunk → Rests after k) ∧
      (result = .suspended → Suspended after k) := by
  unfold Sockets.read at read
  simp only [rests.pooled, if_true, rests.co] at read
  split at read
  next chunk rest buffer =>
    cases read
    constructor
    · intro _ _
      exact rests.set rests.pooled.symm rfl rests.co.symm rfl rfl
    · intro is
      cases is
  next =>
    split_ifs at read
    · cases read
      constructor
      · intro _ is
        cases is
      · intro _
        exact rests.suspend rests.pooled.symm rfl rfl
    · cases read
      constructor
      · intro _ is
        cases is
      · intro is
        cases is

theorem Rests.resumeRead (rests : Rests n k) {after : Sockets S D} {chunk : Chunk S D}
    (read : n.resumeRead k = (after, .chunk chunk)) : Rests after k := by
  have same : n.wakeupClosing k = n := by
    unfold Sockets.wakeupClosing
    rw [rests.closing]
  unfold Sockets.resumeRead at read
  simp only [same] at read
  split at read
  · cases read
    exact rests.set rfl rfl rfl rfl rfl
  · cases read

theorem Rests.resumeBlock (rests : Rests n k) : (n.resumeBlock k).1 = n := by
  unfold Sockets.resumeBlock Sockets.wakeupClosing
  rw [rests.closing]

theorem Rests.block (rests : Rests n k) :
    (∃ after, n.block k k = (after, .suspended) ∧ Suspended after k) ∨
      n.block k k = (n, .returned false) := by
  unfold Sockets.block
  simp only [rests.pooled, Bool.true_and, rests.co]
  split_ifs with connected required
  · cases (rests.required connected).symm.trans required
  · exact .inl ⟨_, rfl, rests.suspend rests.pooled.symm rfl rfl⟩
  · exact .inr rfl

end Sockets

open Channel Sockets

structure Wired (s : Channel S D) : Prop where
  sound : Sound s.net s.connections
  attached : ∀ k, s.sock = some k → Attached s.net k (s.dispatchers k)

variable {mode : Mode} {s : Channel S D} {k : Nat} {hand : Option (Nat × Option Nat)}

structure Fit (s : Channel S D) (k : Nat) : Prop where
  sound : Sound s.net s.connections
  newest : k + 1 = s.connections
  sock : ∀ i, s.sock = some i → i = k

theorem Fit.goOn (fit : Fit s k) {phase : Phase}
    (attached : s.sock = some k → Attached s.net k phase) : Wired (s.goOn k phase) where
  sound := fit.sound
  attached := by
    intro i there
    cases fit.sock i there
    have here : (s.goOn k phase).dispatchers k = phase := Function.update_self ..
    rw [here]
    exact attached there

theorem Fit.yield_ (fit : Fit s k) {phase : Phase}
    (attached : s.sock = some k → Attached s.net k phase) : Wired (s.yield_ k phase) where
  sound := fit.sound
  attached := by
    intro i there
    cases fit.sock i there
    have here : (s.yield_ k phase).dispatchers k = phase := Function.update_self ..
    rw [here]
    exact attached there

theorem afterFailure_frame (mode : Mode) (s : Channel S D) (k j : Nat)
    (hand : Option (Nat × Option Nat)) :
    (s.afterFailure mode k j hand).sock = s.sock ∧ (s.afterFailure mode k j hand).net = s.net ∧
      (s.afterFailure mode k j hand).connections = s.connections := by
  cases mode <;> exact ⟨rfl, rfl, rfl⟩

theorem Fit.fail (fit : Fit s k) (j : Nat) : Wired (s.fail mode k j hand) := by
  unfold Channel.fail
  split
  next closed =>
    obtain ⟨sock, net, connections⟩ := afterFailure_frame mode s k j hand
    refine ⟨?_, ?_⟩
    · rw [net, connections]
      exact fit.sound
    · intro i there
      cases (sock.symm.trans there).symm.trans closed
  next i there =>
    cases fit.sock i there
    have bound : k < s.connections := fit.newest ▸ Nat.lt_succ_self k
    have sound : Sound (s.net.close k (.dispatch k)).1 s.connections := fit.sound.close bound rfl
    simp only
    split_ifs
    · obtain ⟨sock, net, connections⟩ := afterFailure_frame mode
        { s with
          sock := none, net := (s.net.close k (.dispatch k)).1, shut := s.shut ++ [(j, k)] } k j hand
      refine ⟨?_, ?_⟩
      · rw [net, connections]
        exact sound
      · intro i' there
        cases sock.symm.trans there
    · refine ⟨sound, ?_⟩
      intro i' there
      cases there

variable [DecidableEq S]

theorem Fit.answered (fit : Fit s k) (rests : s.sock = some k → Rests s.net k) (j : Nat)
    (answer : Answer S D) : Wired (s.answered mode k j hand answer) := by
  cases mode with
  | order =>
    apply Fit.goOn
    · exact ⟨fit.sound, fit.newest, fit.sock⟩
    · exact rests
  | session =>
    unfold Channel.answered
    simp only
    split
    · exact fit.fail j
    · apply Fit.goOn
      · exact ⟨fit.sound, fit.newest, fit.sock⟩
      · exact rests

theorem Fit.afterRead (fit : Fit s k) {result : Read S D} (j : Nat)
    (chunk : s.sock = some k → ∀ chunk, result = .chunk chunk → Rests s.net k)
    (suspended : s.sock = some k → result = .suspended → Suspended s.net k) :
    Wired (s.afterRead mode k j hand result) := by
  cases result with
  | chunk what =>
    have rests := fun there => chunk there what rfl
    cases what with
    | part => exact fit.goOn rests
    | last answer => exact fit.answered rests j answer
    | bad => exact fit.fail j
  | failed => exact fit.fail j
  | suspended => exact fit.yield_ fun there => suspended there rfl

theorem Fit.read (fit : Fit s k) (rests : s.sock = some k → Rests s.net k) :
    Wired (s.read mode k k hand) := by
  have bound : k < s.connections := fit.newest ▸ Nat.lt_succ_self k
  have after : Fit { s with net := (s.net.read k k).1 } k :=
    ⟨fit.sound.read bound, fit.newest, fit.sock⟩
  refine after.afterRead k ?_ ?_
  · intro there
    exact ((rests there).read rfl).1
  · intro there
    exact ((rests there).read rfl).2

omit [DecidableEq S] in
theorem Fit.afterBlock (fit : Fit s k) {result : Block}
    (returned : s.sock = some k → result = .returned true → Rests s.net k)
    (runs : s.sock = some k → result ≠ .raised)
    (suspended : s.sock = some k → result = .suspended → Suspended s.net k) :
    Wired (s.afterBlock mode k k result) := by
  cases result with
  | returned connected =>
    cases connected with
    | true => exact fit.goOn fun there => returned there rfl
    | false => exact fit.fail k
  | raised => exact fit.yield_ fun there => absurd rfl (runs there)
  | suspended => exact fit.yield_ fun there => suspended there rfl

theorem Fit.loop (fit : Fit s k) (rests : s.sock = some k → Rests s.net k) :
    Wired (s.loop mode k) := by
  have bound : k < s.connections := fit.newest ▸ Nat.lt_succ_self k
  unfold Channel.loop
  split
  next closed =>
    refine fit.yield_ ?_
    intro there
    cases closed.symm.trans there
  next j there =>
    cases fit.sock j there
    cases mode with
    | session => exact fit.read rests
    | order =>
      simp only
      split
      · exact Fit.read ⟨fit.sound, fit.newest, fit.sock⟩ rests
      · have after : Fit { s with
            request := s.request.tail, thread := s.thread.tail, net := (s.net.block k k).1 } k :=
          ⟨fit.sound.block bound, fit.newest, fit.sock⟩
        rcases (rests there).block with ⟨next, is, waits⟩ | is
        · rw [is] at after ⊢
          refine after.afterBlock ?_ ?_ fun _ _ => waits
          · intro _ is
            cases is
          · intro _ is
            cases is
        · rw [is] at after ⊢
          refine after.afterBlock ?_ ?_ ?_
          · intro _ is
            cases is
          · intro _ is
            cases is
          · intro _ is
            cases is

theorem Wired.resume (wired : Wired s) (stable : Stable mode s) (newest : k + 1 = s.connections)
    (woken : Coroutine.dispatch k ∈ s.net.awake) :
    Wired (Channel.resume mode
      { s with net := { s.net with awake := s.net.awake.erase (.dispatch k) } } k) := by
  have own := stable.core.own k
  have attached := wired.attached k
  have bound : k < s.connections := newest ▸ Nat.lt_succ_self k
  have erased := wired.sound.erase (.dispatch k)
  have sock : ∀ i, s.sock = some i → i = k := by
    intro i there
    have := stable.core.sock i there
    omega
  have rests : s.sock = some k → (∃ j popped, s.dispatchers k = .reading j popped) ∨
      (∃ j, s.dispatchers k = .blocking j) →
      Rests { s.net with awake := s.net.awake.erase (.dispatch k) } k := by
    intro there phase
    have suspended : Suspended s.net k := by
      have := attached there
      rcases phase with ⟨j, popped, is⟩ | ⟨j, is⟩
      · rw [is] at this
        exact this
      · rw [is] at this
        exact this
    exact suspended.erase wired.sound.nodup woken
  -- A dispatch coroutine that does not wait is not woken while it has a socket.
  have stale : (s.sock = some k → Coroutine.dispatch k ∉ s.net.awake) →
      Wired { s with net := { s.net with awake := s.net.awake.erase (.dispatch k) } } := by
    intro asleep
    refine ⟨erased, ?_⟩
    intro i there
    cases sock i there
    exact absurd woken (asleep there)
  unfold Channel.resume
  simp only
  cases phase : s.dispatchers k with
  | reading j popped =>
    rw [phase] at own
    obtain ⟨rfl, _⟩ := own
    have after : Fit { s with
        net := (resumeRead { s.net with awake := s.net.awake.erase (.dispatch j) } j).1 } j :=
      ⟨erased.resumeRead bound, newest, sock⟩
    refine after.afterRead j ?_ ?_
    · intro there chunk is
      exact (rests there (.inl ⟨j, popped, phase⟩)).resumeRead (Prod.ext rfl is)
    · intro _ is
      unfold Sockets.resumeRead at is
      simp only at is
      split at is
      · cases is
      · cases is
  | blocking j =>
    rw [phase] at own
    cases own
    have same : s.sock = some k →
        (resumeBlock { s.net with awake := s.net.awake.erase (.dispatch k) } k).1 =
          { s.net with awake := s.net.awake.erase (.dispatch k) } :=
      fun there => (rests there (.inr ⟨k, phase⟩)).resumeBlock
    have after : Fit { s with
        net := (resumeBlock { s.net with awake := s.net.awake.erase (.dispatch k) } k).1 } k :=
      ⟨erased.wakeupClosing bound, newest, sock⟩
    refine after.afterBlock ?_ ?_ ?_
    · intro there _
      simp only [same there]
      exact rests there (.inr ⟨k, phase⟩)
    · intro _ is
      cases is
    · intro _ is
      cases is
  | closing i j popped =>
    rw [phase] at own
    obtain ⟨rfl, rfl⟩ := own
    obtain ⟨kept, net, connections⟩ := afterFailure_frame mode
      { s with
        net := finishClose { s.net with awake := s.net.awake.erase (.dispatch j) } j } j j popped
    refine ⟨?_, ?_⟩
    · rw [net, connections]
      exact erased.finishClose bound
    · intro i there
      have there : s.sock = some i := kept.symm.trans there
      cases sock i there
      exact absurd there (stable.core.spent _ _ _ _ phase)
  | forked =>
    refine stale fun there => ?_
    have rests := attached there
    rw [phase] at rests
    exact Rests.awake rests
  | loop =>
    refine stale fun there => ?_
    have rests := attached there
    rw [phase] at rests
    exact Rests.awake rests
  | read j popped =>
    refine stale fun there => ?_
    have rests := attached there
    rw [phase] at rests
    exact Rests.awake rests
  | ended =>
    refine stale fun there => ?_
    have none_ := attached there
    rw [phase] at none_
    exact none_.elim

omit [DecidableEq S] in
theorem start_wired : Wired (Channel.start : Channel S D) where
  sound := by
    refine ⟨List.nodup_nil, ?_, fun _ _ => ⟨rfl, rfl, rfl⟩, ?_, ?_⟩
    · intro _ inside
      cases inside
    · intro _ _ is
      cases is
    · intro _ _ is
      cases is
  attached := fun _ there => by cases there

omit [DecidableEq S] in
theorem Wired.same {t : Channel S D} (wired : Wired s) (net : t.net = s.net)
    (connections : t.connections = s.connections) (sock : t.sock = s.sock)
    (dispatchers : t.dispatchers = s.dispatchers) : Wired t where
  sound := by
    rw [net, connections]
    exact wired.sound
  attached := by
    rw [net, sock, dispatchers]
    exact wired.attached

omit [DecidableEq S] in
theorem Wired.closeChannelSocket (mode : Mode) (wired : Wired s)
    (newest : ∀ j, s.sock = some j → j + 1 = s.connections) (after : After) :
    Wired (s.closeChannelSocket mode after) := by
  have closed := closeChannelSocket_sock mode s after
  refine ⟨?_, ?_⟩
  · rw [(closeChannelSocket_dispatchers mode s after).2]
    unfold Channel.closeChannelSocket
    split
    · cases after <;> cases mode <;> exact wired.sound
    next j sock =>
      have bound : j < s.connections := newest j sock ▸ Nat.lt_succ_self j
      have sound : Sound (s.net.close j (.closer j)).1 s.connections := wired.sound.close bound rfl
      simp only
      split_ifs
      · cases after <;> cases mode <;> exact sound
      · exact sound
  · intro k there
    cases closed.symm.trans there

omit [DecidableEq S] in
theorem Wired.opened (wired : Wired s) (desc : Desc) : Wired (s.established desc) where
  sound := wired.sound.opened
  attached := by
    intro k there
    cases there
    have phase : (s.established desc).dispatchers s.connections = .forked := Function.update_self ..
    have pool : (s.established desc).net.pool s.connections = .opened := Function.update_self ..
    rw [phase]
    refine ⟨?_, ?_, ?_, ?_, ?_⟩
    · rw [pool]
      rfl
    · rw [pool]
      rfl
    · rw [pool]
      rfl
    · intro inside
      exact absurd (wired.sound.bound _ inside) (Nat.lt_irrefl _)
    · rw [pool]
      exact fun _ => rfl

omit [DecidableEq S] in
theorem afterClose_frame (mode : Mode) (s : Channel S D) (j : Nat) (after : After) :
    (s.afterClose mode j after).net = s.net ∧
      (s.afterClose mode j after).connections = s.connections ∧
        (s.afterClose mode j after).sock = s.sock ∧
          (s.afterClose mode j after).dispatchers = s.dispatchers := by
  cases after <;> cases mode <;> exact ⟨rfl, rfl, rfl, rfl⟩

theorem Wired.step {t : Channel S D} {desc : Desc} {action : Action S D} (wired : Wired s)
    (stable : Stable desc.mode s) (newest : Newest s action)
    (taken : step desc s action = some t) : Wired t := by
  have sock : ∀ {k}, k + 1 = s.connections → ∀ i, s.sock = some i → i = k := by
    intro k on i there
    have := stable.core.sock i there
    omega
  cases running : s.running with
  | some k =>
    have on := stable.core.running k running
    have own := stable.core.own k
    have attached := wired.attached k
    cases action with
    | loop k' =>
      simp only [Socketchannel.step, running, turn] at taken
      split_ifs at taken
      split at taken
      next phase =>
        rw [phase] at attached
        cases taken
        exact Fit.loop ⟨wired.sound, on, sock on⟩ attached
      next j popped phase =>
        rw [phase] at attached own
        obtain ⟨rfl, _⟩ := own
        cases taken
        exact Fit.read ⟨wired.sound, on, sock on⟩ attached
      next => cases taken
    | _ => simp [Socketchannel.step, running, turn] at taken
  | none =>
    simp only [Socketchannel.step, running] at taken
    cases action with
    | loop k => cases taken
    | connect =>
      simp only [act] at taken
      split at taken
      · split_ifs at taken
        cases taken
        exact wired.same rfl rfl rfl rfl
      · cases taken
    | reopen =>
      cases taken
      exact wired.same rfl rfl rfl rfl
    | opened =>
      simp only [act] at taken
      split at taken
      · cases taken
        exact wired.opened desc
      · cases taken
    | notOpened =>
      simp only [act] at taken
      split at taken
      · cases taken
        exact wired.same rfl rfl rfl rfl
      · cases taken
    | authEnd ok =>
      simp only [act] at taken
      split at taken
      · split_ifs at taken
        · cases taken
          exact wired.same rfl rfl rfl rfl
        · cases taken
          exact wired.same rfl rfl rfl rfl
        · cases taken
          exact wired.closeChannelSocket desc.mode stable.core.sock .auth
      · cases taken
    | request response =>
      simp only [act] at taken
      split at taken
      next j there =>
        split_ifs at taken
        cases taken
        unfold Channel.pushResponse
        cases desc.mode with
        | order => exact wired.same rfl rfl rfl rfl
        | session => cases response <;> exact wired.same rfl rfl rfl rfl
      next => cases taken
    | writeFails =>
      simp only [act] at taken
      split_ifs at taken
      cases taken
      exact wired.closeChannelSocket desc.mode stable.core.sock .wakeupAll
    | close =>
      simp only [act] at taken
      split_ifs at taken
      · cases taken
        exact wired
      · cases taken
        have closed : Wired { s with closed := true } := wired.same rfl rfl rfl rfl
        exact (closed.closeChannelSocket desc.mode stable.core.sock .nothing).same
          rfl rfl rfl rfl
    | changehost =>
      simp only [act] at taken
      split_ifs at taken
      · cases taken
        exact wired
      · cases taken
        exact (wired.closeChannelSocket desc.mode stable.core.sock .nothing).same
          rfl rfl rfl rfl
    | data j chunk =>
      simp only [act] at taken
      split_ifs at taken with connected
      cases taken
      have bound : j < s.connections := by
        refine Nat.lt_of_not_le fun outside => ?_
        rw [(wired.sound.fresh j outside).2.2] at connected
        cases connected
      exact ⟨wired.sound.data bound chunk,
        fun k there => (wired.attached k there).data wired.sound j chunk⟩
    | disconnect j =>
      simp only [act] at taken
      split_ifs at taken with connected
      cases taken
      have bound : j < s.connections := by
        refine Nat.lt_of_not_le fun outside => ?_
        rw [(wired.sound.fresh j outside).2.2] at connected
        cases connected
      exact ⟨wired.sound.disconnect bound,
        fun k there => (wired.attached k there).disconnect wired.sound j⟩
    | start k =>
      simp only [act] at taken
      split_ifs at taken with forked
      cases taken
      apply Fit.goOn
      · exact ⟨wired.sound, newest, sock newest⟩
      · intro there
        have attached := wired.attached k there
        rw [forked] at attached
        exact attached
    | resume co =>
      simp only [act] at taken
      split_ifs at taken with woken
      cases co with
      | dispatch k =>
        cases taken
        exact wired.resume stable newest woken
      | closer j =>
        have erased := wired.sound.erase (.closer j)
        have kept : ∀ k, Coroutine.dispatch k ∈ s.net.awake.erase (.closer j) ↔
            Coroutine.dispatch k ∈ s.net.awake :=
          fun k => List.mem_erase_of_ne (by simp)
        simp only at taken
        split at taken
        next after closer =>
          cases taken
          have bound : j < s.connections := by
            refine Nat.lt_of_not_le fun outside => ?_
            rw [(stable.core.absent j outside).2] at closer
            cases closer
          have left : Wired { s with
              net := finishClose { s.net with awake := s.net.awake.erase (.closer j) } j
              closers := Function.update s.closers j none } := by
            refine ⟨erased.finishClose bound, ?_⟩
            intro k there
            have apart : k ≠ j := by
              rintro rfl
              exact stable.core.closed k after closer there
            exact (wired.attached k there).of_same (Function.update_of_ne apart ..) (kept k)
          obtain ⟨net, connections, sameSock, dispatchers⟩ := afterClose_frame desc.mode
            { s with
              net := finishClose { s.net with awake := s.net.awake.erase (.closer j) } j
              closers := Function.update s.closers j none } j after
          exact left.same net connections sameSock dispatchers
        next =>
          cases taken
          exact ⟨erased, fun k there => (wired.attached k there).of_same rfl (kept k)⟩

end Pskynet.Socketchannel
