import Pskynet.SocketLua.Served

set_option autoImplicit false

namespace Pskynet.SocketLua

def Stranded (s : Sock) : Prop :=
  s.waiting ≠ none ∧ s.co = some .reader ∧ (s.pool = false ∨ s.woken = some .closer)

instance (s : Sock) : Decidable (Stranded s) := by
  unfold Stranded
  infer_instance

instance (buffer : List UInt8) (call : Call) : Decidable (Ready buffer call) := by
  cases call <;> unfold Ready <;> infer_instance

-- A reader that has just been woken, and behind which another coroutine waits in `socket.close`,
-- calls for no more than is there, and does not close the socket, unless the connection has ended.
def Leaves (s : Sock) : Action → Prop
  | .call call => s.woken = some .closer → s.connected = true → Ready s.buffer call
  | _ => True

instance (s : Sock) (action : Action) : Decidable (Leaves s action) := by
  cases action <;> unfold Leaves <;> infer_instance

variable {s next : Sock}

theorem wakeup_stranded (stranded : Stranded s.wakeup) : Stranded s := by
  obtain ⟨-, same⟩ | ⟨who, -, same⟩ := wakeup_cases s
  · rwa [same] at stranded
  · rw [same] at stranded
    cases stranded.2.1

theorem data_stranded (chunk : List UInt8) (stranded : Stranded (s.data chunk)) : Stranded s := by
  unfold Sock.data at stranded
  split at stranded
  · obtain ⟨serve, -⟩ | ⟨serve, -⟩ | ⟨serve, -⟩ := serve_cases (s.pushed chunk)
    · rw [serve] at stranded
      exact wakeup_stranded (s := { s.pushed chunk with required := .nothing }) stranded
    · rw [serve] at stranded
      exact stranded
    · rw [serve] at stranded
      exact stranded
  · exact stranded

theorem closed_stranded (stranded : Stranded s.closed) : Stranded s := by
  unfold Sock.closed at stranded
  split at stranded
  · exact wakeup_stranded (s := { s with connected := false }) stranded
  · exact stranded

theorem close_stranded (phase : Phase s) (quiet : s.woken = none) (stranded : Stranded s.close) :
    Stranded s := by
  unfold Sock.close at stranded
  by_cases pool : s.pool = true
  · rw [if_pos pool] at stranded
    by_cases connected : s.connected = true
    · rw [if_pos connected] at stranded
      have still : ∀ next, s.awaitClose .closer = some next →
          next.pool = true ∧ next.woken = none := by
        intro next awaited
        obtain rfl | rfl := awaitClose_cases awaited
        · exact ⟨pool, quiet⟩
        · exact ⟨pool, quiet⟩
      cases awaited : s.awaitClose .closer with
      | none =>
        rw [awaited] at stranded
        exact stranded
      | some next =>
        rw [awaited] at stranded
        obtain ⟨kept, silent⟩ := still next awaited
        obtain ⟨-, -, lost | woken⟩ := stranded
        · cases kept.symm.trans lost
        · cases silent.symm.trans woken
    · rw [if_neg connected] at stranded
      obtain ⟨call, waiting⟩ := Option.ne_none_iff_exists'.mp stranded.1
      exact absurd (phase.unready pool quiet waiting).1 connected
  · rw [if_neg pool] at stranded
    exact stranded

theorem gives_free {call : Call} (waiting : s.waiting = none) (given : Gives s call next) :
    ¬Stranded next := by
  obtain ⟨result, buffer, rfl, -⟩ := given
  exact fun stranded => stranded.1 waiting

section

variable (phase : Phase s) (pool : s.pool = true) (connected : s.connected = true) (turn : Turn s)

include phase pool connected turn

theorem await_free_iff (call : Call) :
    ¬Stranded (s.await call call.need) ↔ s.woken ≠ some .closer := by
  obtain ⟨co, required, place⟩ | ⟨woken, co, -⟩ := phase.called pool turn
  · rw [Sock.await, if_neg (not_not_intro (required connected)), if_neg (not_not_intro co)]
    simp [Stranded, pool]
  · refine iff_of_true (fun stranded => ?_) (by simp [woken])
    have busy : s.co ≠ none := by simp [co]
    unfold Sock.await at stranded
    rw [if_pos busy] at stranded
    split at stranded <;> exact stranded.1 turn.1

theorem callClose_free_iff : ¬Stranded (s.call .close) ↔ s.woken ≠ some .closer := by
  simp only [Sock.call, pool, connected, if_true]
  obtain ⟨co, -⟩ | ⟨woken, co, closing, -⟩ := phase.called pool turn
  · rw [Sock.awaitClose, if_pos co]
    simp [Stranded, pool]
  · have busy : s.co ≠ none := by simp [co]
    rw [Sock.awaitClose, if_neg busy, if_pos closing]
    simp [Stranded, woken, co]

end

theorem call_free_iff (phase : Phase s) (call : Call) (turn : Turn s) :
    ¬Stranded (s.call call) ↔ Leaves s (.call call) := by
  cases pool : s.pool with
  | false =>
    refine iff_of_true (gives_free turn.1 (call_gone call pool)) fun woken alive => ?_
    cases (phase.disconnected pool woken).symm.trans alive
  | true =>
    by_cases closes : call = .close
    · subst closes
      by_cases connected : s.connected = true
      · rw [callClose_free_iff phase pool connected turn]
        simp [Leaves, connected, Ready]
      · refine iff_of_true (fun stranded => ?_) fun _ alive => absurd alive connected
        simp only [Sock.call, pool, connected, if_true] at stranded
        exact stranded.1 turn.1
    · obtain ⟨given, ready⟩ | ⟨awaits, connected, unready⟩ := call_cases closes pool
      · exact iff_of_true (gives_free turn.1 given) fun _ => ready
      · rw [awaits, await_free_iff phase pool connected turn]
        simp [Leaves, connected, unready]

theorem continue_waiting (s : Sock) (call : Call) : (s.continue_ call).waiting = s.waiting := by
  cases call with
  | some_ | block | close => rfl
  | size n =>
    simp only [Sock.continue_, Sock.pop]
    split <;> rfl
  | all =>
    simp only [Sock.continue_]
    split <;> rfl
  | line sep =>
    simp only [Sock.continue_, Sock.readline]
    split
    · split <;> rfl
    · rfl

theorem step_free_iff {action : Action} (phase : Phase s) (free : ¬Stranded s)
    (taken : step s action = some next) : ¬Stranded next ↔ Leaves s action := by
  cases action with
  | data chunk =>
    simp only [step, Option.ite_none_right_eq_some, Option.some.injEq] at taken
    obtain ⟨-, rfl⟩ := taken
    exact iff_of_true (fun stranded => free (data_stranded chunk stranded)) trivial
  | closed =>
    simp only [step, Option.ite_none_right_eq_some, Option.some.injEq] at taken
    obtain ⟨-, rfl⟩ := taken
    exact iff_of_true (fun stranded => free (closed_stranded stranded)) trivial
  | call call =>
    simp only [step, Option.ite_none_right_eq_some, Option.some.injEq] at taken
    obtain ⟨⟨-, turn⟩, rfl⟩ := taken
    exact call_free_iff phase call turn
  | close =>
    simp only [step, Option.ite_none_right_eq_some, Option.some.injEq] at taken
    obtain ⟨⟨quiet, -⟩, rfl⟩ := taken
    exact iff_of_true (fun stranded => free (close_stranded phase quiet stranded)) trivial
  | resume =>
    simp only [step] at taken
    split at taken
    · obtain rfl := Option.some.inj taken
      exact iff_of_true (fun stranded => stranded.1 (continue_waiting _ _)) trivial
    · rename_i woken
      obtain rfl := Option.some.inj taken
      exact iff_of_true (fun stranded => free ⟨stranded.1, stranded.2.1, .inr woken⟩) trivial
    · contradiction

theorem Stranded.step {action : Action} (stranded : Stranded s) (phase : Phase s)
    (taken : step s action = some next) : Stranded next ∧ next.waiting = s.waiting := by
  obtain ⟨waits, co, gone⟩ := stranded
  have lost (quiet : s.woken = none) : s.pool = false := by simpa [quiet] using gone
  cases action with
  | data chunk =>
    simp only [SocketLua.step, Option.ite_none_right_eq_some, Option.some.injEq] at taken
    obtain ⟨⟨quiet, -⟩, rfl⟩ := taken
    simp [Sock.data, lost quiet, Stranded, waits, co]
  | closed =>
    simp only [SocketLua.step, Option.ite_none_right_eq_some, Option.some.injEq] at taken
    obtain ⟨quiet, rfl⟩ := taken
    simp [Sock.closed, lost quiet, Stranded, waits, co]
  | call call =>
    simp only [SocketLua.step, Option.ite_none_right_eq_some, Option.some.injEq] at taken
    obtain ⟨⟨-, waiting, -⟩, -⟩ := taken
    contradiction
  | close =>
    simp only [SocketLua.step, Option.ite_none_right_eq_some, Option.some.injEq] at taken
    obtain ⟨⟨quiet, -⟩, rfl⟩ := taken
    simp [Sock.close, lost quiet, Stranded, waits, co]
  | resume =>
    simp only [SocketLua.step] at taken
    split at taken
    · rename_i woken _
      have alone : s.co = none := phase.reader_woken woken
      cases co.symm.trans alone
    · obtain rfl := Option.some.inj taken
      exact ⟨⟨waits, co, .inl rfl⟩, rfl⟩
    · contradiction

theorem Stranded.run {actions : List Action} {final : Sock} (stranded : Stranded s)
    (served : Served s) (ran : Transition.run SocketLua.step s actions = some final) :
    final.waiting = s.waiting := by
  let Stays (state : Sock) : Prop := Served state ∧ Stranded state ∧ state.waiting = s.waiting
  have keeps (state : Sock) (action : Action) (next : Sock) (stays : Stays state)
      (taken : SocketLua.step state action = some next) : Stays next := by
    obtain ⟨served, stranded, same⟩ := stays
    obtain ⟨later, waiting⟩ := stranded.step served.phase taken
    exact ⟨served.step taken, later, waiting.trans same⟩
  have stays := Transition.run_invariant SocketLua.step Stays keeps actions s final
    ⟨served, stranded, rfl⟩ ran
  exact stays.2.2

theorem reader_free_iff (limit : Option Nat) (actions : List Action) (final : Sock)
    (ran : Transition.run step (.start limit) actions = some final) :
    (∀ before later middle, actions = before ++ later →
      Transition.run step (.start limit) before = some middle → ¬Stranded middle) ↔
    Transition.Along step Leaves (.start limit) actions := by
  refine Transition.Along.iff_holds (fun s => ¬Stranded s) Served ?_ ?_ actions _ final
    (served_start limit) ?_ ran
  · intro state action next served taken
    exact served.step taken
  · intro state action next served free taken
    exact step_free_iff served.phase free taken
  · simp [Stranded, Sock.start]

theorem reader_stranded_iff (limit : Option Nat) (actions : List Action) (final : Sock)
    (ran : Transition.run step (.start limit) actions = some final) :
    ((∃ before later middle, actions = before ++ later ∧
        Transition.run step (.start limit) before = some middle ∧ Stranded middle) ↔
      ¬Transition.Along step Leaves (.start limit) actions) ∧
    ∀ before later middle, actions = before ++ later →
      Transition.run step (.start limit) before = some middle → Stranded middle →
      final.waiting = middle.waiting := by
  constructor
  · rw [← reader_free_iff limit actions final ran]
    push Not
    rfl
  · rintro before later middle rfl reached stranded
    rw [Transition.run_append, reached, Option.bind_some] at ran
    exact stranded.run (served_run limit before middle reached) ran

def twoLines : List Action :=
  [.call (.line newline), .close, .data [97, 10], .resume, .call (.line newline), .resume]

theorem second_line_waits : ∃ final, Transition.run step (.start none) twoLines = some final ∧
    final.waiting = some (.line newline) ∧ final.pool = false ∧
    ∃ before later middle, twoLines = before ++ later ∧
      Transition.run step (.start none) before = some middle ∧ Stranded middle :=
  ⟨_, rfl, rfl, rfl, (reader_stranded_iff none twoLines _ rfl).1.mpr (by decide)⟩

end Pskynet.SocketLua
