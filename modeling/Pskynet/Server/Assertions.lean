import Pskynet.Server.Delivery

set_option autoImplicit false

namespace Pskynet.Dispatch

open Server

variable {M : Type} {n : Nat}

-- The assertions that an action evaluates: those of `DispatchMessageQueue`, and the one of
-- `SNMessageQueueMgr::Push`, which `NewContext`, `Push`, `ForceInGlobal` and a worker that
-- changes its queue call.
def Asserts (s : State M n) : Action M n → Prop
  | .initDone c => s.life c = .initialising → (s.queue c).inGlobal
  | .push k => ∀ q m, s.senders[k]? = some (q, m) → ((s.push q m).queue q).inGlobal
  | .force k => ∀ q, s.exiters[k]? = some q → ((s.forceInGlobal q).queue q).inGlobal
  | .work w =>
      match s.worker w with
      | .emptied q => (s.queue q).inGlobal = false
      | .looping q c i count => ¬i < count → (s.queue q).inGlobal ∧ q = c
      | .swapping q _ => (s.queue q).inGlobal
      | _ => True
  | _ => True

-- Nobody pushes on a queue between the `Pop` that found it empty and the assertion after it.
def Undisturbed (s : State M n) : Action M n → Prop
  | .push k => ∀ q m w, s.senders[k]? = some (q, m) → s.worker w ≠ .emptied q
  | .force k => ∀ q w, s.exiters[k]? = some q → s.worker w ≠ .emptied q
  | _ => True

def Vacated (s : State M n) : Prop :=
  ∀ w q, s.worker w = .emptied q → (s.queue q).inGlobal = false ∧ (s.life q).hasQueue

theorem Vacated.frame {s t : State M n} (vacated : Vacated s)
    (worker : ∀ w q, t.worker w = .emptied q → s.worker w = .emptied q)
    (queue : ∀ w q, s.worker w = .emptied q → (t.queue q).inGlobal = (s.queue q).inGlobal)
    (life : ∀ w q, s.worker w = .emptied q → (s.queue q).inGlobal = false →
      (s.life q).hasQueue → (t.life q).hasQueue) : Vacated t := by
  intro w q here
  have before := worker w q here
  obtain ⟨flag, alive⟩ := vacated w q before
  exact ⟨(queue w q before).trans flag, life w q before flag alive⟩

theorem Vacated.same {s t : State M n} (vacated : Vacated s) (worker : t.worker = s.worker)
    (queue : t.queue = s.queue) (life : t.life = s.life) : Vacated t := by
  unfold Vacated
  rw [worker, queue, life]
  exact vacated

theorem setLife_vacated {s : State M n} (vacated : Vacated s) (c : Nat) (life : Life)
    (kept : (s.life c).hasQueue → (s.queue c).inGlobal = false → life.hasQueue) :
    Vacated (s.setLife c life) := by
  refine vacated.frame (fun _ _ here => here) (fun _ _ _ => rfl) ?_
  intro w q _ flag alive
  by_cases same : q = c
  · rw [same] at flag alive ⊢
    simpa [State.setLife] using kept alive flag
  · simpa [State.setLife, same] using alive

theorem setWorker_vacated {s : State M n} (vacated : Vacated s) (w : Fin n) (worker : Worker M)
    (busy : ∀ q, worker = .emptied q → (s.queue q).inGlobal = false ∧ (s.life q).hasQueue) :
    Vacated (s.setWorker w worker) := by
  intro w' q here
  by_cases same : w' = w
  · rw [same] at here
    exact busy q (by simpa [State.setWorker] using here)
  · exact vacated w' q (by simpa [State.setWorker, same] using here)

theorem popGlobal_vacated {s : State M n} (vacated : Vacated s) (w : Fin n) :
    Vacated (s.popGlobal w) := by
  unfold State.popGlobal
  split
  · exact setWorker_vacated vacated w .idle (by simp)
  · rename_i q rest front
    exact (setWorker_vacated vacated w (.holding q) (by simp)).same rfl rfl rfl

theorem setMessages_vacated {s : State M n} (vacated : Vacated s) (q : Nat) (messages : List M) :
    Vacated (s.setQueue q { s.queue q with messages := messages }) := by
  refine vacated.frame (fun _ _ here => here) ?_ (fun _ _ _ _ alive => alive)
  intro w q' _
  by_cases same : q' = q
  · simp [State.setQueue, same]
  · simp [State.setQueue, same]

theorem drop_vacated {s : State M n} (vacated : Vacated s) (q : Nat) (m : M) (rest : List M) :
    Vacated (s.drop q m rest) :=
  (setMessages_vacated vacated q rest).same rfl rfl rfl

theorem Placed.held_flag {s : State M n} {place : Nat → Place n} (placed : Placed s place) (w : Fin n)
    (q : Nat) (held : q ∈ (s.worker w).holds) : (s.queue q).inGlobal ∧ s.life q = .ready := by
  have here := (placed.worker w q).mp held
  have life := placed.ready q (by simp [here]) (by simp [here])
  exact ⟨(placed.flag q (by simp [life, Life.hasQueue])).mpr (by simp [here]), life⟩

theorem work_vacated {s : State M n} {place : Nat → Place n} (placed : Placed s place)
    (vacated : Vacated s) (weight : Fin n → Int) (w : Fin n) : Vacated (s.work weight w) := by
  unfold State.work
  cases now : s.worker w with
  | idle => exact popGlobal_vacated vacated w
  | emptied q => exact popGlobal_vacated vacated w
  | holding q =>
    simp only
    split <;> exact setWorker_vacated vacated w _ (by simp)
  | releasing q =>
    simp only
    split
    · exact setWorker_vacated vacated w _ (by simp)
    · exact drop_vacated vacated q _ _
  | deleting q =>
    have flag := (placed.held_flag w q (by simp [now, Worker.holds])).1
    refine popGlobal_vacated (setLife_vacated vacated q .deleted ?_) w
    intro _ out
    rw [flag] at out
    contradiction
  | looping q c i count =>
    have life := (placed.held_flag w q (by simp [now, Worker.holds])).2
    by_cases more : i < count
    · simp only [more, if_true]
      split
      · refine setWorker_vacated ?_ w _ ?_
        · intro w' q' here
          obtain ⟨flag, alive⟩ := vacated w' q' here
          refine ⟨?_, alive⟩
          by_cases same : q' = q
          · simp [State.setQueue, same]
          · simpa [State.setQueue, same] using flag
        · intro q' same
          rw [Worker.emptied.injEq] at same
          rw [← same]
          exact ⟨by simp [State.setQueue], by simp [State.setQueue, life, Life.hasQueue]⟩
      · refine setWorker_vacated (setMessages_vacated vacated q _) w _ ?_
        intro q'
        split_ifs <;> simp
    · simp only [more, if_false]
      split
      · exact setWorker_vacated vacated w _ (by simp)
      · rename_i next rest front
        exact (setWorker_vacated vacated w (.swapping q next) (by simp)).same rfl rfl rfl
  | sizing q c m => exact setWorker_vacated vacated w _ (by simp)
  | delivering q c m i count =>
    exact (setWorker_vacated vacated w (.looping q c (i + 1) count) (by simp)).same rfl rfl rfl
  | swapping q next =>
    exact (setWorker_vacated vacated w (.holding next) (by simp)).same rfl rfl rfl

theorem step_vacated {s t : State M n} {place : Nat → Place n} (weight : Fin n → Int)
    (action : Action M n) (placed : Placed s place) (vacated : Vacated s)
    (undisturbed : Undisturbed s action) (stepped : step weight s action = some t) : Vacated t := by
  cases step_taken weight s t action stepped with
  | register handle mgr given =>
    have absent := placed.fresh s.contexts (le_refl _)
    exact (setLife_vacated vacated s.contexts .registered (by simp [absent, Life.hasQueue])).same rfl rfl rfl
  | construct c here =>
    intro w q emptied
    obtain ⟨flag, alive⟩ := vacated w q emptied
    have other : q ≠ c := by
      rintro rfl
      rw [here] at alive
      contradiction
    simpa [State.setLife, State.setQueue, other] using ⟨flag, alive⟩
  | initDone c here =>
    exact (setLife_vacated vacated c .ready (fun _ _ => rfl)).same rfl rfl rfl
  | initFailed c here =>
    exact (setLife_vacated vacated c .failing (fun _ _ => rfl)).same rfl rfl rfl
  | discardLast c here => exact setLife_vacated vacated c .failed (fun _ _ => rfl)
  | discardOne c m rest here => exact drop_vacated vacated c m rest
  | discarded c here =>
    refine setLife_vacated vacated c .deleted ?_
    intro alive out
    have place := (placed.creator c).mp (by simp [here, Life.created])
    have flag := (placed.flag c alive).mpr (by simp [place])
    rw [flag] at out
    contradiction
  | unknown => exact vacated
  | find => exact vacated.same rfl rfl rfl
  | push k q m pending here =>
    rw [push_eq]
    refine vacated.frame (fun _ _ here => here) ?_ (fun _ _ _ _ alive => alive)
    intro w q' emptied
    have other : q' ≠ q := by
      rintro rfl
      exact undisturbed _ m w pending emptied
    simp [other]
  | orphan => exact vacated.same rfl rfl rfl
  | kept => exact vacated
  | remove => exact vacated.same rfl rfl rfl
  | force k q pending here =>
    rw [forceInGlobal_eq]
    refine vacated.frame (fun _ _ here => here) ?_ (fun _ _ _ _ alive => alive)
    intro w q' emptied
    have other : q' ≠ q := by
      rintro rfl
      exact undisturbed _ w pending emptied
    simp [other]
  | forced => exact vacated.same rfl rfl rfl
  | work w => exact work_vacated placed vacated weight w

def Orderly (s : State M n) (action : Action M n) : Prop := NoReuse s action ∧ Undisturbed s action

theorem reached_vacated {weight : Fin n → Int} {harbor : UInt32} {s : State M n}
    (reached : Reached weight Orderly harbor s) : Traced s ∧ Vacated s := by
  refine reached.invariant (fun s => Traced s ∧ Vacated s) ?_ ?_
  · rintro s action t ⟨traced, vacated⟩ ⟨fresh, undisturbed⟩ stepped
    obtain ⟨place, placed⟩ := traced.placed
    exact ⟨step_traced weight action traced fresh stepped,
      step_vacated weight action placed vacated undisturbed stepped⟩
  · refine ⟨⟨⟨_, init_placed harbor⟩, init_granted harbor, init_accounted harbor⟩, ?_⟩
    simp [Vacated, State.init]

theorem assertions_hold (weight : Fin n → Int) (harbor : UInt32) (s : State M n)
    (reached : Reached weight Orderly harbor s) (action : Action M n) : Asserts s action := by
  obtain ⟨traced, vacated⟩ := reached_vacated reached
  obtain ⟨place, placed⟩ := traced.placed
  cases action with
  | initDone c =>
    intro here
    have creator := (placed.creator c).mp (by simp [here, Life.created])
    exact (placed.flag c (by simp [here, Life.hasQueue])).mpr (by simp [creator])
  | push k =>
    intro q m _
    simp [push_eq]
  | force k =>
    intro q _
    simp [forceInGlobal_eq]
  | work w =>
    simp only [Asserts]
    cases now : s.worker w with
    | emptied q => exact (vacated w q now).1
    | looping q c i count =>
      intro _
      have own := traced.granted.own w q c (by simp [now, Worker.serves])
      exact ⟨(placed.held_flag w q (by simp [now, Worker.holds])).1, own.symm⟩
    | swapping q next => exact (placed.held_flag w q (by simp [now, Worker.holds])).1
    | idle | holding | sizing | delivering | releasing | deleting => trivial
  | register | construct | initFailed | discard | find | remove => trivial

-- The worker takes the queue of a new service, finds no message in it, and is about to assert
-- that the queue is not scheduled.
def emptyRun : List (Action Nat 1) := launch ++ [.find 1 7, .work 0, .work 0, .work 0]

theorem empty_queue_asserted :
    ∃ s, Transition.run (step fun _ => -1) (State.init 0 : State Nat 1) emptyRun = some s ∧
      s.worker 0 = .emptied 0 ∧ Asserts s (.work 0) := by
  refine ⟨_, rfl, rfl, ?_⟩
  refine assertions_hold (fun _ => -1) 0 _ ?_ (.work 0)
  refine Transition.Path.of_run emptyRun (.refl _) ?_ rfl
  refine ⟨⟨?_, trivial⟩, ?_⟩
  · intro handle mgr _ q alive
    contradiction
  · repeat' first | exact trivial | apply And.intro

theorem late_push_fails_assertion :
    ∃ s t, Transition.run (step fun _ => -1) (State.init 0 : State Nat 1) emptyRun = some s ∧
      step (fun _ => -1) s (.push 0) = some t ∧ t.worker 0 = .emptied 0 ∧
      ¬Asserts t (.work 0) := by
  refine ⟨_, _, rfl, rfl, rfl, ?_⟩
  intro holds
  have out : true = false := holds
  contradiction

end Pskynet.Dispatch
