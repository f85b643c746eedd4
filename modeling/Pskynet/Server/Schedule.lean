import Pskynet.Server.Dispatch

set_option autoImplicit false

namespace Pskynet.Dispatch

open Server

variable {M : Type} {n : Nat}

def Life.created : Life → Bool
  | .initialising | .failing | .failed => true
  | .absent | .registered | .ready | .deleted => false

theorem Life.hasQueue_of_created (life : Life) (created : life.created) : life.hasQueue := by
  cases life <;> simp_all [Life.created, Life.hasQueue]

-- The queues a worker is responsible for; it gives up a queue in the same locked
-- section in which `Pop` finds it empty.
def Worker.holds : Worker M → List Nat
  | .idle | .emptied _ => []
  | .holding q | .looping q .. | .sizing q .. | .delivering q .. | .releasing q | .deleting q => [q]
  | .swapping q next => [q, next]

inductive Place (n : Nat) where
  | nowhere
  | global
  | worker (w : Fin n)
  | creator
  deriving DecidableEq

-- `place` says who is responsible for each queue. That it is a function makes the
-- alternatives exclusive.
structure Placed (s : State M n) (place : Nat → Place n) : Prop where
  fresh : ∀ c, s.contexts ≤ c → s.life c = .absent
  global : ∀ q, q ∈ s.global ↔ place q = .global
  nodup : s.global.Nodup
  worker : ∀ w q, q ∈ (s.worker w).holds ↔ place q = .worker w
  distinct : ∀ w, (s.worker w).holds.Nodup
  creator : ∀ q, (s.life q).created ↔ place q = .creator
  ready : ∀ q, place q ≠ .nowhere → place q ≠ .creator → s.life q = .ready
  flag : ∀ q, (s.life q).hasQueue → ((s.queue q).inGlobal ↔ place q ≠ .nowhere)
  empty : ∀ q, (s.life q).hasQueue → (s.queue q).inGlobal = false → (s.queue q).messages = []

theorem init_placed (harbor : UInt32) :
    Placed (State.init harbor : State M n) (fun _ => .nowhere) := by
  constructor <;> simp [State.init, Worker.holds, Life.created, Life.hasQueue]

theorem Placed.frame {s t : State M n} {place : Nat → Place n} (placed : Placed s place)
    (contexts : t.contexts = s.contexts) (life : t.life = s.life) (queue : t.queue = s.queue)
    (global : t.global = s.global) (worker : t.worker = s.worker) : Placed t place := by
  obtain ⟨a, b, c, d, e, f, g, h, i⟩ := placed
  constructor <;> simp only [contexts, life, queue, global, worker] <;> assumption

theorem register_placed {s : State M n} {place : Nat → Place n} (placed : Placed s place)
    (handle : UInt32) (mgr : SNHandleMgr Nat) :
    Placed { s.setLife s.contexts .registered with
      mgr := mgr
      contexts := s.contexts + 1
      granted := Function.update s.granted s.contexts handle } place := by
  have absent := placed.fresh s.contexts (le_refl _)
  obtain ⟨fresh, global, nodup, worker, distinct, creator, ready, flag, empty⟩ := placed
  constructor <;> simp only [State.setLife, Function.update_apply] <;>
    grind -ring -linarith [Life.created, Life.hasQueue]

theorem construct_placed {s : State M n} {place : Nat → Place n} (placed : Placed s place)
    (c : Nat) (here : s.life c = .registered) :
    Placed ((s.setLife c .initialising).setQueue c { messages := [], inGlobal := true })
      (Function.update place c .creator) := by
  obtain ⟨fresh, global, nodup, worker, distinct, creator, ready, flag, empty⟩ := placed
  constructor <;> simp only [State.setLife, State.setQueue, Function.update_apply] <;>
    grind -ring -linarith [Life.created, Life.hasQueue]

theorem initDone_placed {s : State M n} {place : Nat → Place n} (placed : Placed s place)
    (c : Nat) (here : s.life c = .initialising) :
    Placed ((s.setLife c .ready).pushGlobal c) (Function.update place c .global) := by
  obtain ⟨fresh, global, nodup, worker, distinct, creator, ready, flag, empty⟩ := placed
  constructor <;>
    simp only [State.setLife, State.pushGlobal, Function.update_apply, List.mem_append,
      List.mem_singleton, List.nodup_append] <;>
    grind -ring -linarith [Life.created, Life.hasQueue]

theorem setLife_placed {s : State M n} {place : Nat → Place n} (placed : Placed s place)
    (c : Nat) (life : Life) (before : (s.life c).created) (after : life.created) :
    Placed (s.setLife c life) place := by
  have queueBefore := Life.hasQueue_of_created _ before
  have notAbsent : life ≠ .absent := by rintro rfl; contradiction
  obtain ⟨fresh, global, nodup, worker, distinct, creator, ready, flag, empty⟩ := placed
  constructor <;> simp only [State.setLife, Function.update_apply] <;>
    grind -ring -linarith [Life.created, Life.hasQueue]

theorem discarded_placed {s : State M n} {place : Nat → Place n} (placed : Placed s place)
    (c : Nat) (here : s.life c = .failed) :
    Placed (s.setLife c .deleted) (Function.update place c .nowhere) := by
  obtain ⟨fresh, global, nodup, worker, distinct, creator, ready, flag, empty⟩ := placed
  constructor <;> simp only [State.setLife, Function.update_apply] <;>
    grind -ring -linarith [Life.created, Life.hasQueue]

theorem takeMessage_placed {s : State M n} {place : Nat → Place n} (placed : Placed s place)
    (q : Nat) (m : M) (rest : List M) (front : (s.queue q).messages = m :: rest) :
    Placed (s.setQueue q { s.queue q with messages := rest }) place := by
  obtain ⟨fresh, global, nodup, worker, distinct, creator, ready, flag, empty⟩ := placed
  constructor <;> simp only [State.setQueue, Function.update_apply] <;>
    grind -ring -linarith [Life.created, Life.hasQueue]

theorem drop_placed {s : State M n} {place : Nat → Place n} (placed : Placed s place)
    (q : Nat) (m : M) (rest : List M) (front : (s.queue q).messages = m :: rest) :
    Placed (s.drop q m rest) place :=
  (takeMessage_placed placed q m rest front).frame rfl rfl rfl rfl rfl

theorem Placed.unscheduled {s : State M n} {place : Nat → Place n} (placed : Placed s place)
    (q : Nat) (here : (s.life q).hasQueue) (out : ¬(s.queue q).inGlobal) :
    place q = .nowhere ∧ s.life q = .ready := by
  have nowhere : place q = .nowhere := by
    by_contra somewhere
    exact out ((placed.flag q here).mpr somewhere)
  have notCreated : ¬(s.life q).created := by
    rw [placed.creator q, nowhere]
    simp
  refine ⟨nowhere, ?_⟩
  cases life : s.life q <;> simp_all [Life.created, Life.hasQueue]

theorem forceInGlobal_placed {s : State M n} {place : Nat → Place n} (placed : Placed s place)
    (q : Nat) (here : (s.life q).hasQueue) :
    ∃ place, Placed (s.forceInGlobal q) place := by
  unfold State.forceInGlobal
  split_ifs with inside
  · exact ⟨place, placed⟩
  · obtain ⟨nowhere, life⟩ := placed.unscheduled q here inside
    refine ⟨Function.update place q .global, ?_⟩
    obtain ⟨fresh, global, nodup, worker, distinct, creator, ready, flag, empty⟩ := placed
    constructor <;>
      simp only [State.setQueue, State.pushGlobal, Function.update_apply, List.mem_append,
        List.mem_singleton, List.nodup_append] <;>
      grind -ring -linarith [Life.created, Life.hasQueue]

theorem push_placed {s : State M n} {place : Nat → Place n} (placed : Placed s place)
    (q : Nat) (m : M) (here : (s.life q).hasQueue) : ∃ place, Placed (s.push q m) place := by
  by_cases inside : (s.queue q).inGlobal
  · refine ⟨place, ?_⟩
    obtain ⟨fresh, global, nodup, worker, distinct, creator, ready, flag, empty⟩ := placed
    constructor <;>
      simp only [State.push, State.forceInGlobal, State.setQueue, Function.update_self, inside,
        if_true] <;>
      grind -ring -linarith [Life.created, Life.hasQueue, Function.update_apply]
  · obtain ⟨nowhere, life⟩ := placed.unscheduled q here inside
    refine ⟨Function.update place q .global, ?_⟩
    obtain ⟨fresh, global, nodup, worker, distinct, creator, ready, flag, empty⟩ := placed
    constructor <;>
      simp only [State.push, State.forceInGlobal, State.setQueue, State.pushGlobal,
        Function.update_self, inside, Bool.false_eq_true, if_false, List.mem_append,
        List.mem_singleton, List.nodup_append] <;>
      grind -ring -linarith [Life.created, Life.hasQueue, Function.update_apply]

theorem setWorker_placed {s : State M n} {place : Nat → Place n} (placed : Placed s place)
    (w : Fin n) (worker : Worker M) (same : worker.holds = (s.worker w).holds) :
    Placed (s.setWorker w worker) place := by
  obtain ⟨fresh, global, nodup, held, distinct, creator, ready, flag, empty⟩ := placed
  constructor <;> simp only [State.setWorker] <;> grind -ring -linarith [Function.update_apply]

theorem popGlobal_placed {s : State M n} {place : Nat → Place n} (placed : Placed s place)
    (w : Fin n) (free : (s.worker w).holds = []) : ∃ place, Placed (s.popGlobal w) place := by
  unfold State.popGlobal
  split
  · exact ⟨place, setWorker_placed placed w .idle free.symm⟩
  · rename_i q rest front
    refine ⟨Function.update place q (.worker w), ?_⟩
    obtain ⟨fresh, global, nodup, worker, distinct, creator, ready, flag, empty⟩ := placed
    constructor <;> simp only [State.setWorker] <;>
      grind -ring -linarith [Function.update_apply, Worker.holds, Life.created]

theorem popGlobal_setWorker (s : State M n) (w : Fin n) (worker : Worker M) :
    (s.setWorker w worker).popGlobal w = s.popGlobal w := by
  simp only [State.popGlobal, State.setWorker, Function.update_idem]

theorem work_placed {s : State M n} {place : Nat → Place n} (placed : Placed s place)
    (weight : Fin n → Int) (w : Fin n) : ∃ place, Placed (s.work weight w) place := by
  unfold State.work
  cases now : s.worker w with
  | idle => exact popGlobal_placed placed w (by simp [now, Worker.holds])
  | emptied q => exact popGlobal_placed placed w (by simp [now, Worker.holds])
  | holding q =>
    simp only
    split <;> exact ⟨place, setWorker_placed placed w _ (by simp [now, Worker.holds])⟩
  | releasing q =>
    simp only
    split
    · exact ⟨place, setWorker_placed placed w _ (by simp [now, Worker.holds])⟩
    · rename_i m rest front
      exact ⟨place, drop_placed placed q m rest front⟩
  | deleting q =>
    have mine : place q = .worker w := (placed.worker w q).mp (by simp [now, Worker.holds])
    simp only
    rw [← popGlobal_setWorker _ w .idle]
    have gone : Placed ((s.setLife q .deleted).setWorker w .idle) (Function.update place q .nowhere) := by
      have life := placed.ready q (by simp [mine]) (by simp [mine])
      obtain ⟨fresh, global, nodup, worker, distinct, creator, ready, flag, empty⟩ := placed
      constructor <;> simp only [State.setLife, State.setWorker] <;>
        grind -ring -linarith [Function.update_apply, Worker.holds, Life.created, Life.hasQueue]
    exact popGlobal_placed gone w (by simp [State.setWorker, Worker.holds])
  | looping q c i count =>
    have mine : place q = .worker w := (placed.worker w q).mp (by simp [now, Worker.holds])
    have life := placed.ready q (by simp [mine]) (by simp [mine])
    by_cases more : i < count
    · simp only [more, if_true]
      split
      · rename_i front
        refine ⟨Function.update place q .nowhere, ?_⟩
        obtain ⟨fresh, global, nodup, worker, distinct, creator, ready, flag, empty⟩ := placed
        constructor <;> simp only [State.setQueue, State.setWorker] <;>
          grind -ring -linarith [Function.update_apply, Worker.holds, Life.created, Life.hasQueue]
      · rename_i m rest front
        have taken := takeMessage_placed placed q m rest front
        refine ⟨place, setWorker_placed taken w _ ?_⟩
        split_ifs <;> simp [State.setQueue, now, Worker.holds]
    · simp only [more, if_false]
      split
      · exact ⟨place, setWorker_placed placed w _ (by simp [now, Worker.holds])⟩
      · rename_i next rest front
        refine ⟨Function.update place next (.worker w), ?_⟩
        obtain ⟨fresh, global, nodup, worker, distinct, creator, ready, flag, empty⟩ := placed
        constructor <;> simp only [State.setWorker] <;>
          grind -ring -linarith [Function.update_apply, Worker.holds, Life.created, Life.hasQueue]
  | sizing q c m =>
    exact ⟨place, setWorker_placed placed w _ (by simp [now, Worker.holds])⟩
  | delivering q c m i count =>
    have moved := setWorker_placed placed w (.looping q c (i + 1) count) (by simp [now, Worker.holds])
    exact ⟨place, moved.frame rfl rfl rfl rfl rfl⟩
  | swapping q next =>
    have mine : place q = .worker w := (placed.worker w q).mp (by simp [now, Worker.holds])
    have life := placed.ready q (by simp [mine]) (by simp [mine])
    refine ⟨Function.update place q .global, ?_⟩
    obtain ⟨fresh, global, nodup, worker, distinct, creator, ready, flag, empty⟩ := placed
    constructor <;>
      simp only [State.setWorker, State.pushGlobal, List.mem_append, List.mem_singleton,
        List.nodup_append] <;>
      grind -ring -linarith [Function.update_apply, Worker.holds, Life.created, Life.hasQueue]

theorem step_placed {s t : State M n} {place : Nat → Place n} (weight : Fin n → Int)
    (action : Action M n) (placed : Placed s place) (stepped : step weight s action = some t) :
    ∃ place, Placed t place := by
  cases step_taken weight s t action stepped with
  | register handle mgr => exact ⟨place, register_placed placed handle mgr⟩
  | construct c here => exact ⟨_, (construct_placed placed c here).frame rfl rfl rfl rfl rfl⟩
  | initDone c here => exact ⟨_, initDone_placed placed c here⟩
  | initFailed c here =>
    have moved := setLife_placed placed c .failing (by simp [here, Life.created]) rfl
    exact ⟨place, moved.frame rfl rfl rfl rfl rfl⟩
  | discardLast c here =>
    exact ⟨place, setLife_placed placed c .failed (by simp [here, Life.created]) rfl⟩
  | discardOne c m rest here front => exact ⟨place, drop_placed placed c m rest front⟩
  | discarded c here => exact ⟨_, discarded_placed placed c here⟩
  | unknown => exact ⟨place, placed⟩
  | find => exact ⟨place, placed.frame rfl rfl rfl rfl rfl⟩
  | push k q m pending here =>
    have left : Placed { s with senders := s.senders.eraseIdx k } place :=
      placed.frame rfl rfl rfl rfl rfl
    exact push_placed left q m here
  | orphan => exact ⟨place, placed.frame rfl rfl rfl rfl rfl⟩
  | kept => exact ⟨place, placed⟩
  | remove => exact ⟨place, placed.frame rfl rfl rfl rfl rfl⟩
  | force k q pending here =>
    have left : Placed { s with exiters := s.exiters.eraseIdx k } place :=
      placed.frame rfl rfl rfl rfl rfl
    exact forceInGlobal_placed left q here
  | forced => exact ⟨place, placed.frame rfl rfl rfl rfl rfl⟩
  | work w => exact work_placed placed weight w

end Pskynet.Dispatch
