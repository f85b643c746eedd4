import Pskynet.Server.Schedule

set_option autoImplicit false

namespace Pskynet.Dispatch

open Server

variable {M : Type} {n : Nat}

def Worker.serves : Worker M → Option (Nat × Nat)
  | .looping q c .. | .sizing q c _ | .delivering q c .. => some (q, c)
  | _ => none

def Worker.carries : Worker M → Option (Nat × M)
  | .sizing q _ m | .delivering q _ m .. => some (q, m)
  | _ => none

def Worker.releases : Worker M → Option Nat
  | .releasing q | .deleting q => some q
  | _ => none

theorem Worker.serves_holds (worker : Worker M) (q c : Nat) (here : worker.serves = some (q, c)) :
    worker.holds = [q] := by
  cases worker <;> simp_all [Worker.serves, Worker.holds]

theorem Worker.carries_holds (worker : Worker M) (q : Nat) (m : M)
    (here : worker.carries = some (q, m)) : worker.holds = [q] := by
  cases worker <;> simp_all [Worker.carries, Worker.holds]

theorem Worker.releases_holds (worker : Worker M) (q : Nat) (here : worker.releases = some q) :
    worker.holds = [q] := by
  cases worker <;> simp_all [Worker.releases, Worker.holds]

def Life.present : Life → Bool
  | .absent | .deleted => false
  | .registered | .initialising | .ready | .failing | .failed => true

-- `Register` looks for a slot that is free in the registry, and a queue outlives the slot
-- of its context: a handle can come back while the queue of its last bearer still exists.
def NoReuse (s : State M n) : Action M n → Prop
  | .register => ∀ handle mgr, s.mgr.register s.contexts = some (handle, mgr) →
      ∀ q, (s.life q).present → s.granted q &&& handleMask ≠ handle &&& handleMask
  | _ => True

def Steady : Action M n → Prop
  | .remove _ | .initFailed _ => False
  | _ => True

structure Granted (s : State M n) : Prop where
  tag : s.mgr.harbor &&& handleMask = 0
  known : ∀ slot c, s.mgr.slot slot = some c → s.granted c &&& handleMask = slot ∧ c < s.contexts
  found : ∀ q c, (s.life q).present → s.mgr.slot (s.granted q &&& handleMask) = some c → c = q
  own : ∀ w q c, (s.worker w).serves = some (q, c) → c = q
  released : ∀ w q, (s.worker w).releases = some q → s.mgr.slot (s.granted q &&& handleMask) = none

theorem harbor_tag (harbor : UInt32) : (harbor &&& 0xff) <<< 24 &&& handleMask = 0 := by
  rw [← UInt32.toNat_inj, Words.toNat_and_mask 24 _ handleMask (by decide), UInt32.toNat_shiftLeft,
    Nat.shiftLeft_eq]
  change _ * 2 ^ 24 % 2 ^ 32 % 2 ^ 24 = 0
  omega

theorem init_granted (harbor : UInt32) : Granted (State.init harbor : State M n) := by
  refine ⟨harbor_tag harbor, ?_, ?_, ?_, ?_⟩ <;>
    simp [State.init, SNHandleMgr.new, Worker.serves, Worker.releases]

theorem register_granted {s : State M n} {place : Nat → Place n} (placed : Placed s place)
    (granted : Granted s) (handle : UInt32) (mgr : SNHandleMgr Nat)
    (given : s.mgr.register s.contexts = some (handle, mgr))
    (fresh : ∀ q, (s.life q).present → s.granted q &&& handleMask ≠ handle &&& handleMask) :
    Granted { s.setLife s.contexts .registered with
      mgr := mgr
      contexts := s.contexts + 1
      granted := Function.update s.granted s.contexts handle } := by
  obtain ⟨harbor, free, slots⟩ := Registry.register_slot _ _ _ _ granted.tag given
  have absent := placed.fresh s.contexts (le_refl _)
  have existing : ∀ w q, (s.worker w).releases = some q → (s.life q).present ∧ q ≠ s.contexts := by
    intro w q here
    have mine := (placed.worker w q).mp (by simp [Worker.releases_holds _ q here])
    have ready := placed.ready q (by simp [mine]) (by simp [mine])
    refine ⟨by simp [ready, Life.present], ?_⟩
    rintro rfl
    simp [absent] at ready
  obtain ⟨tag, known, found, own, released⟩ := granted
  constructor <;> simp only [State.setLife, harbor, slots, Function.update_apply] <;>
    grind -ring -linarith [Life.present]

theorem Granted.frame {s t : State M n} (granted : Granted s)
    (harbor : t.mgr.harbor = s.mgr.harbor)
    (slots : ∀ slot c, t.mgr.slot slot = some c → s.mgr.slot slot = some c)
    (contexts : t.contexts = s.contexts) (given : t.granted = s.granted)
    (life : ∀ q, (t.life q).present → (s.life q).present)
    (worker : t.worker = s.worker) : Granted t := by
  have emptied : ∀ slot, s.mgr.slot slot = none → t.mgr.slot slot = none := by
    intro slot free
    cases hit : t.mgr.slot slot with
    | none => rfl
    | some c => simp [slots slot c hit] at free
  obtain ⟨tag, known, found, own, released⟩ := granted
  constructor <;> simp only [harbor, contexts, given, worker] <;> grind -ring -linarith

theorem setWorker_granted {s : State M n} (granted : Granted s) (w : Fin n) (worker : Worker M)
    (own : ∀ q c, worker.serves = some (q, c) → c = q)
    (released : ∀ q, worker.releases = some q → s.mgr.slot (s.granted q &&& handleMask) = none) :
    Granted (s.setWorker w worker) := by
  obtain ⟨tag, known, found, _, _⟩ := granted
  constructor <;> simp only [State.setWorker] <;> grind -ring -linarith [Function.update_apply]

theorem popGlobal_granted {s : State M n} (granted : Granted s) (w : Fin n) :
    Granted (s.popGlobal w) := by
  unfold State.popGlobal
  split
  · exact setWorker_granted granted w .idle (by simp [Worker.serves]) (by simp [Worker.releases])
  · rename_i q rest _
    have moved := setWorker_granted granted w (.holding q) (by simp [Worker.serves])
      (by simp [Worker.releases])
    exact moved.frame rfl (fun _ _ => id) rfl rfl (fun _ => id) rfl

theorem work_granted {s : State M n} {place : Nat → Place n} (placed : Placed s place)
    (granted : Granted s) (weight : Fin n → Int) (w : Fin n) : Granted (s.work weight w) := by
  have own := granted.own w
  have released := granted.released w
  unfold State.work
  cases here : s.worker w with
  | idle => exact popGlobal_granted granted w
  | emptied q => exact popGlobal_granted granted w
  | holding q =>
    have mine := (placed.worker w q).mp (by simp [here, Worker.holds])
    have ready := placed.ready q (by simp [mine]) (by simp [mine])
    simp only
    split
    · rename_i gone
      refine setWorker_granted granted w _ (by simp [Worker.serves]) ?_
      simpa [Worker.releases, SNHandleMgr.findContext] using gone
    · rename_i c found
      have same := granted.found q c (by simp [ready, Life.present]) found
      refine setWorker_granted granted w _ ?_ (by simp [Worker.releases])
      simp [Worker.serves, same]
  | releasing q =>
    rw [here] at released
    simp only
    split
    · exact setWorker_granted granted w _ (by simp [Worker.serves]) released
    · exact granted.frame rfl (fun _ _ => id) rfl rfl (fun _ => id) rfl
  | deleting q =>
    have gone : Granted (s.setLife q .deleted) := by
      refine granted.frame rfl (fun _ _ => id) rfl rfl ?_ rfl
      intro other alive
      by_cases same : other = q <;> simp_all [State.setLife, Life.present]
    exact popGlobal_granted gone w
  | looping q c i count =>
    rw [here] at own
    by_cases more : i < count
    · simp only [more, if_true]
      split
      · refine setWorker_granted ?_ w _ (by simp [Worker.serves]) (by simp [Worker.releases])
        exact granted.frame rfl (fun _ _ => id) rfl rfl (fun _ => id) rfl
      · refine setWorker_granted ?_ w _ ?_ ?_
        · exact granted.frame rfl (fun _ _ => id) rfl rfl (fun _ => id) rfl
        · split_ifs <;> simpa [Worker.serves] using own
        · split_ifs <;> simp [Worker.releases]
    · simp only [more, if_false]
      split
      · exact setWorker_granted granted w _ (by simp [Worker.serves]) (by simp [Worker.releases])
      · rename_i next rest _
        have moved := setWorker_granted granted w (.swapping q next) (by simp [Worker.serves])
          (by simp [Worker.releases])
        exact moved.frame rfl (fun _ _ => id) rfl rfl (fun _ => id) rfl
  | sizing q c m =>
    rw [here] at own
    exact setWorker_granted granted w _ (by simpa [Worker.serves] using own) (by simp [Worker.releases])
  | delivering q c m i count =>
    rw [here] at own
    have moved := setWorker_granted granted w (.looping q c (i + 1) count)
      (by simpa [Worker.serves] using own) (by simp [Worker.releases])
    exact moved.frame rfl (fun _ _ => id) rfl rfl (fun _ => id) rfl
  | swapping q next =>
    have moved := setWorker_granted granted w (.holding next) (by simp [Worker.serves])
      (by simp [Worker.releases])
    exact moved.frame rfl (fun _ _ => id) rfl rfl (fun _ => id) rfl

theorem setLife_granted {s : State M n} (granted : Granted s) (c : Nat) (life : Life)
    (before : (s.life c).present) : Granted (s.setLife c life) := by
  refine granted.frame rfl (fun _ _ => id) rfl rfl ?_ rfl
  intro q alive
  by_cases same : q = c
  · rwa [same]
  · simpa [State.setLife, same] using alive

theorem step_granted {s t : State M n} {place : Nat → Place n} (weight : Fin n → Int)
    (action : Action M n) (placed : Placed s place) (granted : Granted s)
    (fresh : NoReuse s action) (stepped : step weight s action = some t) : Granted t := by
  cases step_taken weight s t action stepped with
  | register handle mgr given =>
    exact register_granted placed granted handle mgr given (fresh handle mgr given)
  | construct c here =>
    have moved := setLife_granted granted c .initialising (by simp [here, Life.present])
    exact moved.frame rfl (fun _ _ => id) rfl rfl (fun _ => id) rfl
  | initDone c here =>
    have moved := setLife_granted granted c .ready (by simp [here, Life.present])
    exact moved.frame rfl (fun _ _ => id) rfl rfl (fun _ => id) rfl
  | initFailed c here =>
    have moved := setLife_granted granted c .failing (by simp [here, Life.present])
    exact moved.frame (Registry.remove_harbor _ _ _) (Registry.remove_slot _ _ _) rfl rfl
      (fun _ => id) rfl
  | discardLast c here => exact setLife_granted granted c .failed (by simp [here, Life.present])
  | discardOne => exact granted.frame rfl (fun _ _ => id) rfl rfl (fun _ => id) rfl
  | discarded c here => exact setLife_granted granted c .deleted (by simp [here, Life.present])
  | unknown => exact granted
  | find => exact granted.frame rfl (fun _ _ => id) rfl rfl (fun _ => id) rfl
  | push =>
    rw [push_eq]
    exact granted.frame rfl (fun _ _ => id) rfl rfl (fun _ => id) rfl
  | orphan => exact granted.frame rfl (fun _ _ => id) rfl rfl (fun _ => id) rfl
  | kept => exact granted
  | remove =>
    exact granted.frame (Registry.remove_harbor _ _ _) (Registry.remove_slot _ _ _) rfl rfl
      (fun _ => id) rfl
  | force =>
    rw [forceInGlobal_eq]
    exact granted.frame rfl (fun _ _ => id) rfl rfl (fun _ => id) rfl
  | forced => exact granted.frame rfl (fun _ _ => id) rfl rfl (fun _ => id) rfl
  | work w => exact work_granted placed granted weight w

def Released (s : State M n) (q : Nat) : Prop :=
  (∃ w, (s.worker w).releases = some q) ∨
    s.life q = .failing ∨ s.life q = .failed ∨ s.life q = .deleted

structure Accounted (s : State M n) : Prop where
  fresh : ∀ q, (s.life q).hasQueue = false → s.life q ≠ .deleted → (s.queue q).messages = []
  broken : ∀ q, s.dropped q ≠ [] → Released s q
  lost : ∀ q, s.orphaned q ≠ [] → s.life q = .deleted
  carried : ∀ w q m, (s.worker w).carries = some (q, m) →
    s.accepted q = s.dispatched q ++ m :: (s.queue q).messages
  kept : ∀ q, (∀ w m, (s.worker w).carries ≠ some (q, m)) →
    s.accepted q = s.dispatched q ++ s.dropped q ++ (s.queue q).messages ++ s.orphaned q

theorem init_accounted (harbor : UInt32) : Accounted (State.init harbor : State M n) := by
  constructor <;> simp [State.init, Worker.carries]

theorem Accounted.frame {s t : State M n} (accounted : Accounted s)
    (accepted : t.accepted = s.accepted) (dispatched : t.dispatched = s.dispatched)
    (dropped : t.dropped = s.dropped) (orphaned : t.orphaned = s.orphaned)
    (messages : ∀ q, (t.queue q).messages = (s.queue q).messages)
    (carries : ∀ w, (t.worker w).carries = (s.worker w).carries)
    (released : ∀ q, Released s q → Released t q)
    (deleted : ∀ q, s.life q = .deleted → t.life q = .deleted)
    (empty : ∀ q, (t.life q).hasQueue = false → t.life q ≠ .deleted →
      (s.queue q).messages = []) : Accounted t := by
  obtain ⟨fresh, broken, lost, carried, kept⟩ := accounted
  constructor <;> simp only [accepted, dispatched, dropped, orphaned, messages, carries] <;> grind -ring -linarith

theorem register_accounted {s : State M n} {place : Nat → Place n} (placed : Placed s place)
    (accounted : Accounted s) (handle : UInt32) (mgr : SNHandleMgr Nat) :
    Accounted { s.setLife s.contexts .registered with
      mgr := mgr
      contexts := s.contexts + 1
      granted := Function.update s.granted s.contexts handle } := by
  have absent := placed.fresh s.contexts (le_refl _)
  refine accounted.frame rfl rfl rfl rfl (fun _ => rfl) (fun _ => rfl) ?_ ?_ ?_ <;>
    simp only [State.setLife, Released] <;>
    grind -ring -linarith [Function.update_apply, Life.hasQueue, accounted.fresh]

theorem setLife_accounted {s : State M n} (accounted : Accounted s) (c : Nat) (life : Life)
    (after : life.hasQueue ∨ life = .deleted) (gone : s.life c ≠ .deleted)
    (released : s.life c = .failing ∨ s.life c = .failed →
      life = .failing ∨ life = .failed ∨ life = .deleted) :
    Accounted (s.setLife c life) := by
  refine accounted.frame rfl rfl rfl rfl (fun _ => rfl) (fun _ => rfl) ?_ ?_ ?_ <;>
    simp only [State.setLife, Released] <;>
    grind -ring -linarith [Function.update_apply, Life.hasQueue, accounted.fresh]

theorem Accounted.whole {s : State M n} {place : Nat → Place n} (placed : Placed s place)
    (accounted : Accounted s) (w : Fin n) (q : Nat) (here : (s.worker w).holds = [q])
    (serving : (s.worker w).releases = none) :
    s.dropped q = [] ∧ s.orphaned q = [] ∧
      ∀ w' m, (s.worker w').carries = some (q, m) → w' = w := by
  have mine := (placed.worker w q).mp (by simp [here])
  have ready := placed.ready q (by simp [mine]) (by simp [mine])
  have alone : ∀ w', (s.worker w').holds = [q] → w' = w := by
    intro w' also
    have his := (placed.worker w' q).mp (by simp [also])
    simpa [mine] using his.symm
  refine ⟨?_, ?_, ?_⟩
  · by_contra present
    rcases accounted.broken q present with ⟨w', releases⟩ | other
    · have same := alone w' (Worker.releases_holds _ q releases)
      rw [same, serving] at releases
      contradiction
    · simp [ready] at other
  · by_contra present
    have deleted := accounted.lost q present
    simp [ready] at deleted
  · intro w' m carries
    exact alone w' (Worker.carries_holds _ q m carries)

theorem Placed.bare {s : State M n} {place : Nat → Place n} (placed : Placed s place) (q : Nat)
    (here : s.life q ≠ .ready) (w : Fin n) (m : M) : (s.worker w).carries ≠ some (q, m) := by
  intro carries
  have his := (placed.worker w q).mp (by simp [Worker.carries_holds _ q m carries])
  exact here (placed.ready q (by simp [his]) (by simp [his]))

theorem Placed.releasing_bare {s : State M n} {place : Nat → Place n} (placed : Placed s place)
    (w : Fin n) (q : Nat) (here : (s.worker w).releases = some q) (w' : Fin n) (m : M) :
    (s.worker w').carries ≠ some (q, m) := by
  intro carries
  have mine := (placed.worker w q).mp (by simp [Worker.releases_holds _ q here])
  have his := (placed.worker w' q).mp (by simp [Worker.carries_holds _ q m carries])
  have same : w = w' := by simpa [mine] using his
  subst same
  cases now : s.worker w <;> simp_all [Worker.releases, Worker.carries]

theorem push_accounted {s : State M n} (accounted : Accounted s) (q : Nat) (m : M)
    (here : (s.life q).hasQueue) : Accounted (s.push q m) := by
  have found : s.orphaned q = [] := by
    by_contra present
    simp [accounted.lost q present, Life.hasQueue] at here
  obtain ⟨fresh, broken, lost, carried, kept⟩ := accounted
  rw [push_eq]
  constructor <;> simp only [Released] at * <;> grind -ring -linarith [Function.update_apply]

theorem orphan_accounted {s : State M n} {place : Nat → Place n} (placed : Placed s place)
    (accounted : Accounted s) (q : Nat) (m : M) (gone : s.life q = .deleted) :
    Accounted (s.orphan q m) := by
  have bare := placed.bare q (by simp [gone])
  obtain ⟨fresh, broken, lost, carried, kept⟩ := accounted
  constructor <;> simp only [State.orphan, Released] at * <;> grind -ring -linarith [Function.update_apply]

theorem drop_accounted {s : State M n} (accounted : Accounted s) (q : Nat) (m : M) (rest : List M)
    (front : (s.queue q).messages = m :: rest) (released : Released s q)
    (bare : ∀ w m, (s.worker w).carries ≠ some (q, m)) : Accounted (s.drop q m rest) := by
  obtain ⟨fresh, broken, lost, carried, kept⟩ := accounted
  constructor <;> simp only [State.drop, State.setQueue, Released] at * <;>
    grind -ring -linarith [Function.update_apply]

theorem Released.setWorker {s : State M n} {q : Nat} (here : Released s q) (w : Fin n)
    (worker : Worker M)
    (released : (s.worker w).releases = some q → worker.releases = some q ∨ s.life q = .deleted) :
    Released (s.setWorker w worker) q := by
  rcases here with ⟨w', releases⟩ | other
  · by_cases same : w' = w
    · subst same
      rcases released releases with still | deleted
      · exact .inl ⟨w', by simpa [State.setWorker] using still⟩
      · exact .inr (.inr (.inr deleted))
    · exact .inl ⟨w', by simpa [State.setWorker, same] using releases⟩
  · exact .inr other

theorem setWorker_accounted {s : State M n} (accounted : Accounted s) (w : Fin n)
    (worker : Worker M) (carries : worker.carries = (s.worker w).carries)
    (released : ∀ q, (s.worker w).releases = some q → worker.releases = some q ∨ s.life q = .deleted) :
    Accounted (s.setWorker w worker) := by
  refine accounted.frame rfl rfl rfl rfl (fun _ => rfl) ?_ ?_ (fun _ => id) accounted.fresh
  · intro w'
    by_cases same : w' = w
    · subst same
      simpa [State.setWorker] using carries
    · simp [State.setWorker, same]
  · intro q here
    exact here.setWorker w worker (released q)

theorem popGlobal_accounted {s : State M n} (accounted : Accounted s) (w : Fin n)
    (carries : (s.worker w).carries = none)
    (released : ∀ q, (s.worker w).releases = some q → s.life q = .deleted) :
    Accounted (s.popGlobal w) := by
  unfold State.popGlobal
  split
  · exact setWorker_accounted accounted w .idle carries.symm
      (fun q here => .inr (released q here))
  · rename_i q rest _
    have moved := setWorker_accounted accounted w (.holding q) carries.symm
      (fun q here => .inr (released q here))
    exact moved.frame rfl rfl rfl rfl (fun _ => rfl) (fun _ => rfl) (fun _ => id) (fun _ => id)
      moved.fresh

theorem take_accounted {s : State M n} {place : Nat → Place n} (placed : Placed s place)
    (accounted : Accounted s) (w : Fin n) (q : Nat) (m : M) (rest : List M) (worker : Worker M)
    (holds : (s.worker w).holds = [q]) (releases : (s.worker w).releases = none)
    (free : (s.worker w).carries = none) (front : (s.queue q).messages = m :: rest)
    (carries : worker.carries = some (q, m)) :
    Accounted ((s.setQueue q { s.queue q with messages := rest }).setWorker w worker) := by
  obtain ⟨dropped, orphaned, alone⟩ := accounted.whole placed w q holds releases
  have mine := (placed.worker w q).mp (by simp [holds])
  have ready := placed.ready q (by simp [mine]) (by simp [mine])
  obtain ⟨fresh, broken, lost, carried, kept⟩ := accounted
  have whole := kept q (by
    intro w' m' carries'
    have same := alone w' m' carries'
    rw [same, free] at carries'
    contradiction)
  have released : ∀ q', Released s q' → Released (s.setWorker w worker) q' := by
    intro q' here
    exact here.setWorker w worker (by simp [releases])
  refine ⟨?_, fun q' here => released q' (broken q' here), lost, ?_, ?_⟩
  · intro q' absent alive
    by_cases same : q' = q
    · subst same
      simp [State.setQueue, State.setWorker, ready, Life.hasQueue] at absent
    · simpa [State.setQueue, State.setWorker, same] using fresh q' absent alive
  · intro w' q' m' carries'
    by_cases same : w' = w
    · subst same
      simp only [State.setWorker, Function.update_self, carries, Option.some.injEq,
        Prod.mk.injEq] at carries'
      obtain ⟨rfl, rfl⟩ := carries'
      simpa [State.setQueue, State.setWorker, front, dropped, orphaned] using whole
    · simp only [State.setWorker, State.setQueue, Function.update_of_ne same] at carries'
      have other : q' ≠ q := by
        rintro rfl
        exact same (alone w' m' carries')
      simpa [State.setQueue, State.setWorker, other] using carried w' q' m' carries'
  · intro q' bare
    have other : q' ≠ q := by
      rintro rfl
      exact bare w m (by simpa [State.setWorker] using carries)
    have before := kept q' (by
      intro w' m' carries'
      by_cases same : w' = w
      · rw [same, free] at carries'
        contradiction
      · exact bare w' m' (by simpa [State.setWorker, State.setQueue, same] using carries'))
    simpa [State.setQueue, State.setWorker, other] using before

theorem deliver_accounted {s : State M n} {place : Nat → Place n} (placed : Placed s place)
    (accounted : Accounted s) (w : Fin n) (q : Nat) (m : M) (worker : Worker M)
    (holds : (s.worker w).holds = [q]) (releases : (s.worker w).releases = none)
    (carries : (s.worker w).carries = some (q, m)) (free : worker.carries = none) :
    Accounted { s.setWorker w worker with
      dispatched := Function.update s.dispatched q (s.dispatched q ++ [m]) } := by
  obtain ⟨dropped, orphaned, alone⟩ := accounted.whole placed w q holds releases
  obtain ⟨fresh, broken, lost, carried, kept⟩ := accounted
  have whole := carried w q m carries
  have released : ∀ q', Released s q' → Released (s.setWorker w worker) q' := by
    intro q' here
    exact here.setWorker w worker (by simp [releases])
  refine ⟨fresh, fun q' here => released q' (broken q' here), lost, ?_, ?_⟩
  · intro w' q' m' carries'
    have different : w' ≠ w := by
      rintro rfl
      simp [State.setWorker, free] at carries'
    simp only [State.setWorker, Function.update_of_ne different] at carries'
    have other : q' ≠ q := by
      rintro rfl
      exact different (alone w' m' carries')
    simpa [State.setWorker, other] using carried w' q' m' carries'
  · intro q' bare
    by_cases same : q' = q
    · subst same
      simp [State.setWorker, whole, dropped, orphaned]
    · have before := kept q' (by
        intro w' m' carries'
        by_cases mine' : w' = w
        · rw [mine', carries] at carries'
          exact same (by simpa using congrArg (Option.map Prod.fst) carries'.symm)
        · exact bare w' m' (by simpa [State.setWorker, mine'] using carries'))
      simpa [State.setWorker, same] using before

theorem work_accounted {s : State M n} {place : Nat → Place n} (placed : Placed s place)
    (granted : Granted s) (accounted : Accounted s) (weight : Fin n → Int) (w : Fin n) :
    Accounted (s.work weight w) := by
  have own := granted.own w
  have bare := placed.releasing_bare w
  have take := take_accounted placed accounted w
  have deliver := deliver_accounted placed accounted w
  unfold State.work
  cases here : s.worker w with
  | idle =>
    exact popGlobal_accounted accounted w (by simp [here, Worker.carries])
      (by simp [here, Worker.releases])
  | emptied q =>
    exact popGlobal_accounted accounted w (by simp [here, Worker.carries])
      (by simp [here, Worker.releases])
  | holding q =>
    simp only
    split <;> exact setWorker_accounted accounted w _ (by simp [here, Worker.carries])
      (by simp [here, Worker.releases])
  | releasing q =>
    simp only
    split
    · exact setWorker_accounted accounted w _ (by simp [here, Worker.carries])
        (by simp [here, Worker.releases])
    · rename_i m rest front
      exact drop_accounted accounted q m rest front (.inl ⟨w, by simp [here, Worker.releases]⟩)
        (bare q (by simp [here, Worker.releases]))
  | deleting q =>
    have mine := (placed.worker w q).mp (by simp [here, Worker.holds])
    have ready := placed.ready q (by simp [mine]) (by simp [mine])
    have gone := setLife_accounted accounted q .deleted (.inr rfl) (by simp [ready]) (by simp)
    refine popGlobal_accounted gone w (by simp [State.setLife, here, Worker.carries]) ?_
    intro q' releases
    have same : q = q' := by simpa [State.setLife, here, Worker.releases] using releases
    simp [State.setLife, same]
  | looping q c i count =>
    by_cases more : i < count
    · simp only [more, if_true]
      split
      · rename_i front
        have cleared : Accounted (s.setQueue q { s.queue q with inGlobal := false }) := by
          refine accounted.frame rfl rfl rfl rfl ?_ (fun _ => rfl) (fun _ => id) (fun _ => id)
            accounted.fresh
          intro q'
          by_cases same : q' = q <;> simp [State.setQueue, same]
        exact setWorker_accounted cleared w _ (by simp [State.setQueue, here, Worker.carries])
          (by simp [State.setQueue, here, Worker.releases])
      · rename_i m rest front
        refine take q m rest _ (by simp [here, Worker.holds]) (by simp [here, Worker.releases])
          (by simp [here, Worker.carries]) front ?_
        split_ifs <;> rfl
    · simp only [more, if_false]
      split
      · exact setWorker_accounted accounted w _ (by simp [here, Worker.carries])
          (by simp [here, Worker.releases])
      · rename_i next rest _
        have moved := setWorker_accounted accounted w (.swapping q next)
          (by simp [here, Worker.carries]) (by simp [here, Worker.releases])
        exact moved.frame rfl rfl rfl rfl (fun _ => rfl) (fun _ => rfl) (fun _ => id) (fun _ => id)
          moved.fresh
  | sizing q c m =>
    exact setWorker_accounted accounted w _ (by simp [here, Worker.carries])
      (by simp [here, Worker.releases])
  | delivering q c m i count =>
    have same : c = q := own q c (by simp [here, Worker.serves])
    subst same
    exact deliver c m _ (by simp [here, Worker.holds]) (by simp [here, Worker.releases])
      (by simp [here, Worker.carries]) rfl
  | swapping q next =>
    have moved := setWorker_accounted accounted w (.holding next) (by simp [here, Worker.carries])
      (by simp [here, Worker.releases])
    exact moved.frame rfl rfl rfl rfl (fun _ => rfl) (fun _ => rfl) (fun _ => id) (fun _ => id)
      moved.fresh

theorem step_accounted {s t : State M n} {place : Nat → Place n} (weight : Fin n → Int)
    (action : Action M n) (placed : Placed s place) (granted : Granted s)
    (accounted : Accounted s) (stepped : step weight s action = some t) : Accounted t := by
  cases step_taken weight s t action stepped with
  | register handle mgr => exact register_accounted placed accounted handle mgr
  | construct c here =>
    have empty := accounted.fresh c (by simp [here, Life.hasQueue]) (by simp [here])
    have moved := setLife_accounted accounted c .initialising (.inl rfl) (by simp [here])
      (by simp [here])
    refine moved.frame rfl rfl rfl rfl ?_ (fun _ => rfl) (fun _ => id) (fun _ => id) moved.fresh
    intro q
    by_cases same : q = c
    · subst same
      simp [State.setQueue, State.setLife, empty]
    · simp [State.setQueue, State.setLife, same]
  | initDone c here =>
    have moved := setLife_accounted accounted c .ready (.inl rfl) (by simp [here]) (by simp [here])
    exact moved.frame rfl rfl rfl rfl (fun _ => rfl) (fun _ => rfl) (fun _ => id) (fun _ => id)
      moved.fresh
  | initFailed c here =>
    have moved := setLife_accounted accounted c .failing (.inl rfl) (by simp [here]) (by simp)
    exact moved.frame rfl rfl rfl rfl (fun _ => rfl) (fun _ => rfl) (fun _ => id) (fun _ => id)
      moved.fresh
  | discardLast c here =>
    exact setLife_accounted accounted c .failed (.inl rfl) (by simp [here]) (by simp)
  | discardOne c m rest here front =>
    exact drop_accounted accounted c m rest front (.inr (.inl here)) (placed.bare c (by simp [here]))
  | discarded c here =>
    exact setLife_accounted accounted c .deleted (.inr rfl) (by simp [here]) (by simp)
  | unknown => exact accounted
  | find =>
    exact accounted.frame rfl rfl rfl rfl (fun _ => rfl) (fun _ => rfl) (fun _ => id) (fun _ => id)
      accounted.fresh
  | push k q m pending here =>
    refine push_accounted ?_ q m here
    exact accounted.frame rfl rfl rfl rfl (fun _ => rfl) (fun _ => rfl) (fun _ => id) (fun _ => id)
      accounted.fresh
  | orphan k q m pending gone =>
    have left : Placed { s with senders := s.senders.eraseIdx k } place :=
      placed.frame rfl rfl rfl rfl rfl
    refine orphan_accounted left ?_ q m gone
    exact accounted.frame rfl rfl rfl rfl (fun _ => rfl) (fun _ => rfl) (fun _ => id) (fun _ => id)
      accounted.fresh
  | kept => exact accounted
  | remove =>
    exact accounted.frame rfl rfl rfl rfl (fun _ => rfl) (fun _ => rfl) (fun _ => id) (fun _ => id)
      accounted.fresh
  | force k q pending here =>
    rw [forceInGlobal_eq]
    refine accounted.frame rfl rfl rfl rfl ?_ (fun _ => rfl) (fun _ => id) (fun _ => id)
      accounted.fresh
    intro q'
    by_cases same : q' = q <;> simp [same]
  | forced =>
    exact accounted.frame rfl rfl rfl rfl (fun _ => rfl) (fun _ => rfl) (fun _ => id) (fun _ => id)
      accounted.fresh
  | work w => exact work_accounted placed granted accounted weight w

abbrev Reached (weight : Fin n → Int) (allowed : State M n → Action M n → Prop) (harbor : UInt32)
    (s : State M n) : Prop :=
  Transition.Path (step weight) allowed (State.init harbor) s

theorem reached_placed {weight : Fin n → Int} {allowed : State M n → Action M n → Prop}
    {harbor : UInt32} {s : State M n} (reached : Reached weight allowed harbor s) :
    ∃ place, Placed s place :=
  reached.invariant (fun s => ∃ place, Placed s place)
    (fun _ action _ ⟨_, placed⟩ _ stepped => step_placed weight action placed stepped)
    ⟨_, init_placed harbor⟩

structure Traced (s : State M n) : Prop where
  placed : ∃ place, Placed s place
  granted : Granted s
  accounted : Accounted s

theorem step_traced {s t : State M n} (weight : Fin n → Int) (action : Action M n)
    (traced : Traced s) (fresh : NoReuse s action) (stepped : step weight s action = some t) :
    Traced t := by
  obtain ⟨⟨place, placed⟩, granted, accounted⟩ := traced
  exact ⟨step_placed weight action placed stepped,
    step_granted weight action placed granted fresh stepped,
    step_accounted weight action placed granted accounted stepped⟩

theorem reached_traced {weight : Fin n → Int} {harbor : UInt32} {s : State M n}
    (reached : Reached weight NoReuse harbor s) : Traced s :=
  reached.invariant Traced
    (fun _ action _ traced fresh stepped => step_traced weight action traced fresh stepped)
    ⟨⟨_, init_placed harbor⟩, init_granted harbor, init_accounted harbor⟩

-- While no context leaves the registry, every context that exists is in its own slot, so
-- that a free slot belongs to none of them.
def Seated (s : State M n) : Prop :=
  ∀ q, (s.life q).present → s.mgr.slot (s.granted q &&& handleMask) = some q

theorem seated_noReuse {s : State M n} (granted : Granted s) (seated : Seated s)
    (action : Action M n) : NoReuse s action := by
  cases action <;> try trivial
  intro handle mgr given q present same
  have free := (Registry.register_slot _ _ _ _ granted.tag given).2.1
  rw [← same, seated q present] at free
  contradiction

theorem popGlobal_life (s : State M n) (w : Fin n) : (s.popGlobal w).life = s.life := by
  unfold State.popGlobal
  split <;> rfl

theorem popGlobal_registry (s : State M n) (w : Fin n) :
    (s.popGlobal w).mgr = s.mgr ∧ (s.popGlobal w).granted = s.granted := by
  unfold State.popGlobal
  split <;> exact ⟨rfl, rfl⟩

theorem work_registry (s : State M n) (weight : Fin n → Int) (w : Fin n) :
    (s.work weight w).mgr = s.mgr ∧ (s.work weight w).granted = s.granted := by
  unfold State.work
  cases s.worker w <;> simp only
  case deleting q => simpa [State.setLife] using popGlobal_registry (s.setLife q .deleted) w
  case idle => exact popGlobal_registry s w
  case emptied => exact popGlobal_registry s w
  case looping q c i count =>
    by_cases more : i < count
    · simp only [more, if_true]
      split <;> exact ⟨rfl, rfl⟩
    · simp only [more, if_false]
      split <;> exact ⟨rfl, rfl⟩
  all_goals first | exact ⟨rfl, rfl⟩ | (split <;> exact ⟨rfl, rfl⟩)

theorem work_life (s : State M n) (weight : Fin n → Int) (w : Fin n) (q : Nat)
    (alive : ((s.work weight w).life q).present) : (s.life q).present := by
  unfold State.work at alive
  cases here : s.worker w <;> simp only [here] at alive
  case deleting q' =>
    rw [popGlobal_life] at alive
    by_cases same : q = q'
    · simp [State.setLife, same, Life.present] at alive
    · simpa [State.setLife, same] using alive
  case idle => rwa [popGlobal_life] at alive
  case emptied => rwa [popGlobal_life] at alive
  case looping q' c i count =>
    by_cases more : i < count
    · simp only [more, if_true] at alive
      split at alive <;> exact alive
    · simp only [more, if_false] at alive
      split at alive <;> exact alive
  all_goals first | exact alive | (split at alive <;> exact alive)

theorem Seated.frame {s t : State M n} (seated : Seated s) (slots : t.mgr.slot = s.mgr.slot)
    (given : t.granted = s.granted) (life : ∀ q, (t.life q).present → (s.life q).present) :
    Seated t := by
  intro q alive
  rw [slots, given]
  exact seated q (life q alive)

theorem setLife_seated {s : State M n} (seated : Seated s) (c : Nat) (life : Life)
    (before : (s.life c).present) : Seated (s.setLife c life) := by
  refine seated.frame rfl rfl ?_
  intro q alive
  by_cases same : q = c
  · rwa [same]
  · simpa [State.setLife, same] using alive

theorem step_seated {s t : State M n} {place : Nat → Place n} (weight : Fin n → Int)
    (action : Action M n) (placed : Placed s place) (granted : Granted s) (seated : Seated s)
    (steady : Steady action) (stepped : step weight s action = some t) : Seated t := by
  cases step_taken weight s t action stepped with
  | register handle mgr given =>
    obtain ⟨_, free, slots⟩ := Registry.register_slot _ _ _ _ granted.tag given
    have absent := placed.fresh s.contexts (le_refl _)
    intro q alive
    by_cases same : q = s.contexts
    · simp [slots, same]
    · have before := seated q (by simpa [State.setLife, same] using alive)
      have other : s.granted q &&& handleMask ≠ handle &&& handleMask := by
        intro clash
        rw [clash, free] at before
        contradiction
      simpa [State.setLife, slots, same, other] using before
  | construct c here =>
    exact (setLife_seated seated c _ (by simp [here, Life.present])).frame rfl rfl (fun _ => id)
  | initDone c here =>
    exact (setLife_seated seated c _ (by simp [here, Life.present])).frame rfl rfl (fun _ => id)
  | initFailed => contradiction
  | discardLast c here => exact setLife_seated seated c _ (by simp [here, Life.present])
  | discardOne => exact seated.frame rfl rfl (fun _ => id)
  | discarded c here => exact setLife_seated seated c _ (by simp [here, Life.present])
  | unknown => exact seated
  | find => exact seated.frame rfl rfl (fun _ => id)
  | push =>
    rw [push_eq]
    exact seated.frame rfl rfl (fun _ => id)
  | orphan => exact seated.frame rfl rfl (fun _ => id)
  | kept => contradiction
  | remove => contradiction
  | force =>
    rw [forceInGlobal_eq]
    exact seated.frame rfl rfl (fun _ => id)
  | forced => exact seated.frame rfl rfl (fun _ => id)
  | work w =>
    obtain ⟨mgr, given⟩ := work_registry s weight w
    exact seated.frame (by rw [mgr]) given (work_life s weight w)

theorem steady_noReuse {weight : Fin n → Int} {harbor : UInt32} {s : State M n}
    (reached : Reached weight (fun _ => Steady) harbor s) :
    Reached weight NoReuse harbor s := by
  have both : Reached weight NoReuse harbor s ∧ Seated s := by
    induction reached with
    | refl => exact ⟨.refl _, by simp [Seated, State.init, Life.present]⟩
    | tail action _ steady stepped ih =>
      obtain ⟨before, seated⟩ := ih
      obtain ⟨⟨place, placed⟩, granted, _⟩ := reached_traced before
      exact ⟨before.tail action (seated_noReuse granted seated action) stepped,
        step_seated weight action placed granted seated steady stepped⟩
  exact both.1

-- In the global queue once, held by one worker, or in the hands of `NewContext`.
def ScheduledOnce (s : State M n) (q : Nat) : Prop :=
  (s.global.count q = 1 ∧ (∀ w, q ∉ (s.worker w).holds) ∧ s.life q = .ready) ∨
    (q ∉ s.global ∧ (∃! w, q ∈ (s.worker w).holds) ∧ s.life q = .ready) ∨
    (q ∉ s.global ∧ (∀ w, q ∉ (s.worker w).holds) ∧ (s.life q).created)

structure Scheduled (s : State M n) : Prop where
  flag : ∀ q, (s.life q).hasQueue → ((s.queue q).inGlobal ↔ ScheduledOnce s q)
  empty : ∀ q, (s.life q).hasQueue → (s.queue q).inGlobal = false → (s.queue q).messages = []
  awake : ∀ q, (s.life q).hasQueue → (s.queue q).messages ≠ [] → ScheduledOnce s q
  alone : ∀ w w' q, q ∈ (s.worker w).holds → q ∈ (s.worker w').holds → w = w'

structure Serial (s : State M n) : Prop where
  own : ∀ w q c, (s.worker w).serves = some (q, c) → c = q
  alone : ∀ w w' q q' c, (s.worker w).serves = some (q, c) → (s.worker w').serves = some (q', c) →
    w = w'
  order : ∀ c, s.dispatched c <+: s.accepted c

theorem Placed.scheduledOnce_iff {s : State M n} {place : Nat → Place n} (placed : Placed s place)
    (q : Nat) : ScheduledOnce s q ↔ place q ≠ .nowhere := by
  obtain ⟨fresh, global, nodup, worker, distinct, creator, ready, flag, empty⟩ := placed
  unfold ScheduledOnce
  simp only [worker]
  constructor
  · rintro (⟨once, _⟩ | ⟨_, ⟨w, held, _⟩, _⟩ | ⟨_, _, created⟩)
    · rw [(global q).mp (List.count_pos_iff.mp (by omega))]
      simp
    · simp [show place q = .worker w from held]
    · simp [(creator q).mp created]
  · intro somewhere
    cases here : place q with
    | nowhere => contradiction
    | global =>
      have member := (global q).mpr here
      exact .inl ⟨List.count_eq_one_of_mem nodup member, by simp,
        ready q somewhere (by simp [here])⟩
    | worker w =>
      refine .inr (.inl ⟨by simp [global, here], ⟨w, rfl, ?_⟩, ready q somewhere (by simp [here])⟩)
      intro w' same
      simpa using same.symm
    | creator => exact .inr (.inr ⟨by simp [global, here], by simp, (creator q).mpr here⟩)

theorem Placed.scheduled {s : State M n} {place : Nat → Place n} (placed : Placed s place) :
    Scheduled s := by
  refine ⟨?_, placed.empty, ?_, ?_⟩
  · intro q here
    rw [placed.scheduledOnce_iff, placed.flag q here]
  · intro q here busy
    rw [placed.scheduledOnce_iff, ← placed.flag q here]
    by_contra out
    exact busy (placed.empty q here (by simpa using out))
  · intro w w' q mine his
    have here := (placed.worker w q).mp mine
    have there := (placed.worker w' q).mp his
    simpa [here] using there

theorem Traced.serial {s : State M n} (traced : Traced s) : Serial s := by
  obtain ⟨⟨place, placed⟩, granted, accounted⟩ := traced
  refine ⟨granted.own, ?_, ?_⟩
  · intro w w' q q' c mine his
    have same := granted.own w q c mine
    have also := granted.own w' q' c his
    subst same also
    have here := Worker.serves_holds _ c c mine
    have there := Worker.serves_holds _ c c his
    exact placed.scheduled.alone w w' c (by simp [here]) (by simp [there])
  · intro c
    by_cases busy : ∃ w m, (s.worker w).carries = some (c, m)
    · obtain ⟨w, m, carries⟩ := busy
      exact ⟨_, (accounted.carried w c m carries).symm⟩
    · push Not at busy
      rw [accounted.kept c busy, List.append_assoc, List.append_assoc]
      exact List.prefix_append _ _

theorem queues_scheduled (weight : Fin n → Int) (harbor : UInt32) (s : State M n)
    (reached : Reached weight (fun _ _ => True) harbor s) :
    Scheduled s ∧ (Reached weight NoReuse harbor s → Serial s) ∧
      (Reached weight (fun _ => Steady) harbor s → Serial s) := by
  obtain ⟨place, placed⟩ := reached_placed reached
  exact ⟨placed.scheduled, fun fresh => (reached_traced fresh).serial,
    fun steady => (reached_traced (steady_noReuse steady)).serial⟩

def launch : List (Action Nat 1) := [.register, .construct 0, .initDone 0]

theorem launched_service_scheduled :
    ∃ s, Transition.run (step fun _ => -1) (State.init 0 : State Nat 1)
        (launch ++ [.find 1 7, .push 0, .work 0, .work 0, .work 0]) = some s ∧
      (s.worker 0).carries = some (0, 7) ∧ Scheduled s ∧ Serial s := by
  refine ⟨_, rfl, rfl, ?_⟩
  have steady : Reached (fun _ => -1) (fun _ => Steady) 0 _ :=
    Transition.Path.of_run (launch ++ [.find 1 7, .push 0, .work 0, .work 0, .work 0]) (.refl _)
      (by repeat' first | exact trivial | apply And.intro) rfl
  have scheduled := queues_scheduled (fun _ => -1) 0 _ (steady.mono fun _ _ _ => trivial)
  exact ⟨scheduled.1, scheduled.2.2 steady⟩

end Pskynet.Dispatch
