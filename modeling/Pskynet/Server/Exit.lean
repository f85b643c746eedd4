import Pskynet.Server.Delivery

set_option autoImplicit false

namespace Pskynet.Dispatch

open Server

variable {M : Type} {n : Nat}

structure Unsought (s : State M n) (q : Nat) : Prop where
  push : ∀ m, (q, m) ∉ s.senders
  force : q ∉ s.exiters

-- The last `Pop` of `Release` and that of a launch that failed are taken while no
-- `ContextPush` has found the context and is yet to push, and no `handle_exit` has removed it
-- and is yet to force its queue.
def Quiet (s : State M n) : Action M n → Prop
  | .work w => ∀ q, s.worker w = .releasing q → (s.queue q).messages = [] → Unsought s q
  | .discard c => s.life c = .failing → (s.queue c).messages = [] →
      Unsought s c ∧ s.mgr.findContext (s.granted c) ≠ some c
  | action => NoReuse s action

theorem Quiet.noReuse {s : State M n} {action : Action M n} (quiet : Quiet s action) :
    NoReuse s action := by
  cases action <;> first | exact quiet | trivial

def Closing (s : State M n) (q : Nat) : Prop :=
  (∃ w, s.worker w = .deleting q) ∨ s.life q = .failed ∨ s.life q = .deleted

structure Sealed (s : State M n) : Prop where
  found : ∀ q, s.orphaned q = []
  forced : s.stale = []
  empty : ∀ q, Closing s q → (s.queue q).messages = []
  unsought : ∀ q, Closing s q → Unsought s q
  unknown : ∀ q, Closing s q → ∀ slot, s.mgr.slot slot ≠ some q

theorem init_sealed (harbor : UInt32) : Sealed (State.init harbor : State M n) := by
  refine ⟨fun _ => rfl, rfl, ?_, ?_, ?_⟩
  · simp [State.init]
  · intro q _
    constructor <;> simp [State.init]
  · simp [State.init, SNHandleMgr.new]

theorem Sealed.frame {s t : State M n} (kept : Sealed s)
    (orphaned : t.orphaned = s.orphaned) (stale : t.stale = s.stale)
    (closing : ∀ q, Closing t q → Closing s q)
    (messages : ∀ q, Closing s q → (t.queue q).messages = (s.queue q).messages)
    (senders : ∀ q m, Closing s q → (q, m) ∈ t.senders → (q, m) ∈ s.senders)
    (exiters : ∀ q, Closing s q → q ∈ t.exiters → q ∈ s.exiters)
    (slots : ∀ q slot, Closing s q → t.mgr.slot slot = some q → s.mgr.slot slot = some q) :
    Sealed t := by
  obtain ⟨found, forced, empty, unsought, unknown⟩ := kept
  refine ⟨?_, ?_, ?_, ?_, ?_⟩
  · rw [orphaned]
    exact found
  · rw [stale]
    exact forced
  · intro q here
    rw [messages q (closing q here)]
    exact empty q (closing q here)
  · intro q here
    have before := unsought q (closing q here)
    exact ⟨fun m pending => before.push m (senders q m (closing q here) pending),
      fun pending => before.force (exiters q (closing q here) pending)⟩
  · intro q here slot hit
    exact unknown q (closing q here) slot (slots q slot (closing q here) hit)

theorem Placed.closing_ready {s : State M n} {place : Nat → Place n} (placed : Placed s place)
    (q : Nat) (here : Closing s q) : s.life q = .ready ∨ s.life q = .failed ∨ s.life q = .deleted := by
  rcases here with ⟨w, deleting⟩ | failed | deleted
  · have mine := (placed.worker w q).mp (by simp [deleting, Worker.holds])
    exact .inl (placed.ready q (by simp [mine]) (by simp [mine]))
  · exact .inr (.inl failed)
  · exact .inr (.inr deleted)

theorem Placed.held_open {s : State M n} {place : Nat → Place n} (placed : Placed s place)
    (w : Fin n) (q : Nat) (holds : q ∈ (s.worker w).holds) (not : s.worker w ≠ .deleting q) :
    ¬Closing s q := by
  have mine := (placed.worker w q).mp holds
  have ready := placed.ready q (by simp [mine]) (by simp [mine])
  rintro (⟨w', deleting⟩ | failed | deleted)
  · have his := (placed.worker w' q).mp (by simp [deleting, Worker.holds])
    have same : w = w' := by simpa [mine] using his
    exact not (same ▸ deleting)
  · simp [ready] at failed
  · simp [ready] at deleted

theorem Closing.of_setWorker {s : State M n} {w : Fin n} {worker : Worker M} {q : Nat}
    (here : Closing (s.setWorker w worker) q) (not : worker ≠ .deleting q) : Closing s q := by
  rcases here with ⟨w', deleting⟩ | other
  · by_cases same : w' = w
    · subst same
      simp only [State.setWorker, Function.update_self] at deleting
      contradiction
    · exact .inl ⟨w', by simpa [State.setWorker, same] using deleting⟩
  · exact .inr other

theorem setWorker_sealed {s : State M n} (kept : Sealed s) (w : Fin n) (worker : Worker M)
    (not : ∀ q, worker ≠ .deleting q) : Sealed (s.setWorker w worker) :=
  kept.frame rfl rfl (fun q here => here.of_setWorker (not q)) (fun _ _ => rfl) (fun _ _ _ => id)
    (fun _ _ => id) (fun _ _ _ => id)

theorem popGlobal_sealed {s : State M n} (kept : Sealed s) (w : Fin n) :
    Sealed (s.popGlobal w) := by
  unfold State.popGlobal
  split
  · exact setWorker_sealed kept w .idle (by simp)
  · rename_i q rest _
    have moved := setWorker_sealed kept w (.holding q) (by simp)
    exact moved.frame rfl rfl (fun _ => id) (fun _ _ => rfl) (fun _ _ _ => id) (fun _ _ => id) (fun _ _ _ => id)

theorem setQueue_sealed {s : State M n} (kept : Sealed s) (q : Nat) (queue : Queue M)
    (opened : ¬Closing s q) : Sealed (s.setQueue q queue) := by
  refine kept.frame rfl rfl (fun _ => id) ?_ (fun _ _ _ => id) (fun _ _ => id) (fun _ _ _ => id)
  intro q' here
  have other : q' ≠ q := by
    rintro rfl
    exact opened here
  simp [State.setQueue, other]

theorem deleting_sealed {s : State M n} (granted : Granted s) (kept : Sealed s) (w : Fin n)
    (q : Nat) (here : s.worker w = .releasing q) (front : (s.queue q).messages = [])
    (quiet : Unsought s q) : Sealed (s.setWorker w (.deleting q)) := by
  have gone := granted.released w q (by simp [here, Worker.releases])
  have known := granted.known
  have before : ∀ q', Closing (s.setWorker w (.deleting q)) q' → q' = q ∨ Closing s q' := by
    intro q' closing
    by_cases same : q' = q
    · exact .inl same
    · exact .inr (closing.of_setWorker (by simpa using Ne.symm same))
  obtain ⟨found, forced, empty, unsought, unknown⟩ := kept
  refine ⟨found, forced, ?_, ?_, ?_⟩
  · intro q' closing
    rcases before q' closing with rfl | old
    · exact front
    · exact empty q' old
  · intro q' closing
    rcases before q' closing with rfl | old
    · exact ⟨quiet.push, quiet.force⟩
    · exact ⟨(unsought q' old).push, (unsought q' old).force⟩
  · intro q' closing slot hit
    rcases before q' closing with rfl | old
    · have same := (known slot q' hit).1
      rw [same] at gone
      simp only [State.setWorker, gone] at hit
      contradiction
    · exact unknown q' old slot hit

theorem setLife_sealed {s : State M n} (kept : Sealed s) (c : Nat) (life : Life)
    (after : life = .failed ∨ life = .deleted → Closing s c) : Sealed (s.setLife c life) := by
  refine kept.frame rfl rfl ?_ (fun _ _ => rfl) (fun _ _ _ => id) (fun _ _ => id) (fun _ _ _ => id)
  intro q closing
  by_cases same : q = c
  · subst same
    rcases closing with deleting | other
    · exact .inl deleting
    · exact after (by simpa [State.setLife] using other)
  · simpa [Closing, State.setLife, same] using closing

theorem work_sealed {s : State M n} {place : Nat → Place n} (placed : Placed s place)
    (granted : Granted s) (kept : Sealed s) (weight : Fin n → Int) (w : Fin n)
    (quiet : Quiet s (.work w)) : Sealed (s.work weight w) := by
  have opened := placed.held_open w
  unfold State.work
  cases here : s.worker w with
  | idle => exact popGlobal_sealed kept w
  | emptied q => exact popGlobal_sealed kept w
  | holding q =>
    simp only
    split <;> exact setWorker_sealed kept w _ (by simp)
  | releasing q =>
    simp only
    split
    · rename_i front
      exact deleting_sealed granted kept w q here front (quiet q here front)
    · rename_i m rest _
      have popped := setQueue_sealed kept q { s.queue q with messages := rest }
        (opened q (by simp [here, Worker.holds]) (by simp [here]))
      exact popped.frame rfl rfl (fun _ => id) (fun _ _ => rfl) (fun _ _ _ => id) (fun _ _ => id) (fun _ _ _ => id)
  | deleting q =>
    exact popGlobal_sealed (setLife_sealed kept q .deleted fun _ => .inl ⟨w, here⟩) w
  | looping q c i count =>
    have free := opened q (by simp [here, Worker.holds]) (by simp [here])
    by_cases more : i < count
    · simp only [more, if_true]
      split
      · exact setWorker_sealed (setQueue_sealed kept q _ free) w _ (by simp)
      · refine setWorker_sealed (setQueue_sealed kept q _ free) w _ ?_
        intro q'
        split_ifs <;> simp
    · simp only [more, if_false]
      split
      · exact setWorker_sealed kept w _ (by simp)
      · rename_i next rest _
        have moved := setWorker_sealed kept w (.swapping q next) (by simp)
        exact moved.frame rfl rfl (fun _ => id) (fun _ _ => rfl) (fun _ _ _ => id) (fun _ _ => id) (fun _ _ _ => id)
  | sizing q c m => exact setWorker_sealed kept w _ (by simp)
  | delivering q c m i count =>
    have moved := setWorker_sealed kept w (.looping q c (i + 1) count) (by simp)
    exact moved.frame rfl rfl (fun _ => id) (fun _ _ => rfl) (fun _ _ _ => id) (fun _ _ => id) (fun _ _ _ => id)
  | swapping q next =>
    have moved := setWorker_sealed kept w (.holding next) (by simp)
    exact moved.frame rfl rfl (fun _ => id) (fun _ _ => rfl) (fun _ _ _ => id) (fun _ _ => id) (fun _ _ _ => id)

theorem discardLast_sealed {s : State M n} (granted : Granted s) (kept : Sealed s) (c : Nat)
    (front : (s.queue c).messages = []) (quiet : Unsought s c)
    (gone : s.mgr.findContext (s.granted c) ≠ some c) : Sealed (s.setLife c .failed) := by
  have known := granted.known
  have before : ∀ q, Closing (s.setLife c .failed) q → q = c ∨ Closing s q := by
    intro q closing
    by_cases same : q = c
    · exact .inl same
    · exact .inr (by simpa [Closing, State.setLife, same] using closing)
  obtain ⟨found, forced, empty, unsought, unknown⟩ := kept
  refine ⟨found, forced, ?_, ?_, ?_⟩
  · intro q closing
    rcases before q closing with rfl | old
    · exact front
    · exact empty q old
  · intro q closing
    rcases before q closing with rfl | old
    · exact ⟨quiet.push, quiet.force⟩
    · exact ⟨(unsought q old).push, (unsought q old).force⟩
  · intro q closing slot hit
    rcases before q closing with rfl | old
    · have same := (known slot q hit).1
      exact gone (by rw [SNHandleMgr.findContext, same]; exact hit)
    · exact unknown q old slot hit

theorem step_sealed {s t : State M n} {place : Nat → Place n} (weight : Fin n → Int)
    (action : Action M n) (placed : Placed s place) (granted : Granted s) (kept : Sealed s)
    (quiet : Quiet s action) (stepped : step weight s action = some t) : Sealed t := by
  have ready := placed.closing_ready
  cases step_taken weight s t action stepped with
  | register handle mgr given =>
    obtain ⟨_, _, slots⟩ := Registry.register_slot _ _ _ _ granted.tag given
    have absent := placed.fresh s.contexts (le_refl _)
    refine (setLife_sealed kept s.contexts .registered (by simp)).frame rfl rfl (fun _ => id)
      (fun _ _ => rfl) (fun _ _ _ => id) (fun _ _ => id) ?_
    intro q slot closing hit
    have other : q ≠ s.contexts := by
      rintro rfl
      rcases closing with ⟨w, deleting⟩ | life
      · have alive := ready s.contexts (.inl ⟨w, deleting⟩)
        simp [absent] at alive
      · simp [State.setLife] at life
    simp only [slots] at hit
    by_cases same : slot = handle &&& handleMask
    · rw [same, Function.update_self, Option.some.injEq] at hit
      exact absurd hit.symm other
    · simpa [State.setLife, same] using hit
  | construct c here =>
    have opened : ¬Closing s c := fun closing => by simpa [here] using ready c closing
    have moved := setLife_sealed kept c .initialising (by simp)
    have opened' : ¬Closing (s.setLife c .initialising) c := by
      rintro (deleting | life)
      · exact opened (.inl deleting)
      · simp [State.setLife] at life
    exact (setQueue_sealed moved c _ opened').frame rfl rfl (fun _ => id) (fun _ _ => rfl)
      (fun _ _ _ => id) (fun _ _ => id) (fun _ _ _ => id)
  | initDone c here =>
    exact (setLife_sealed kept c .ready (by simp)).frame rfl rfl (fun _ => id) (fun _ _ => rfl)
      (fun _ _ _ => id) (fun _ _ => id) (fun _ _ _ => id)
  | initFailed c here =>
    exact (setLife_sealed kept c .failing (by simp)).frame rfl rfl (fun _ => id) (fun _ _ => rfl)
      (fun _ _ _ => id) (fun _ _ => id) (fun q slot _ => Registry.remove_slot _ _ _ slot q)
  | discardLast c here front =>
    obtain ⟨unsought, gone⟩ := quiet here front
    exact discardLast_sealed granted kept c front unsought gone
  | discardOne c m rest here front =>
    have opened : ¬Closing s c := fun closing => by simpa [here] using ready c closing
    exact (setQueue_sealed kept c _ opened).frame rfl rfl (fun _ => id) (fun _ _ => rfl)
      (fun _ _ _ => id) (fun _ _ => id) (fun _ _ _ => id)
  | discarded c here => exact setLife_sealed kept c .deleted (fun _ => .inr (.inl here))
  | unknown => exact kept
  | find handle m c found =>
    refine kept.frame rfl rfl (fun _ => id) (fun _ _ => rfl) ?_ (fun _ _ => id) (fun _ _ _ => id)
    intro q m' closing pending
    rcases List.mem_append.mp pending with old | new
    · exact old
    · simp only [List.mem_singleton, Prod.mk.injEq] at new
      rw [new.1] at closing
      exact absurd found (kept.unknown c closing _)
  | push k q m pending here =>
    have opened : ¬Closing s q := fun closing =>
      (kept.unsought q closing).push m (List.mem_of_getElem? pending)
    rw [push_eq]
    have pushed := setQueue_sealed kept q
      { messages := (s.queue q).messages ++ [m], inGlobal := true } opened
    exact pushed.frame rfl rfl (fun _ => id) (fun _ _ => rfl)
      (fun _ _ _ left => List.mem_of_mem_eraseIdx left) (fun _ _ => id) (fun _ _ _ => id)
  | orphan k q m pending gone =>
    exact absurd (List.mem_of_getElem? pending) ((kept.unsought q (.inr (.inr gone))).push m)
  | kept => exact kept
  | remove handle c returned =>
    refine kept.frame rfl rfl (fun _ => id) (fun _ _ => rfl) (fun _ _ _ => id) ?_
      (fun q slot _ => Registry.remove_slot _ _ _ slot q)
    intro q closing pending
    rcases List.mem_append.mp pending with old | new
    · exact old
    · rw [List.mem_singleton.mp new] at closing
      have there := Registry.remove_returned _ _ _ _ returned
      exact absurd there (kept.unknown c closing _)
  | force k q pending here =>
    rw [forceInGlobal_eq]
    refine kept.frame rfl rfl (fun _ => id) ?_ (fun _ _ _ => id)
      (fun _ _ left => List.mem_of_mem_eraseIdx left) (fun _ _ _ => id)
    intro q' _
    by_cases same : q' = q <;> simp [same]
  | forced k q pending gone =>
    exact absurd (List.mem_of_getElem? pending) (kept.unsought q (.inr (.inr gone))).force
  | work w => exact work_sealed placed granted kept weight w quiet

-- Each message that a `ContextPush` put on the queue was dispatched, is in the hands of
-- a worker, was dropped or waits in a queue that exists; and no push and no `ForceInGlobal`
-- came too late.
structure NothingLost (s : State M n) (q : Nat) : Prop where
  found : s.orphaned q = []
  forced : q ∉ s.stale
  whole : ∃ hand left, s.accepted q = s.dispatched q ++ hand ++ s.dropped q ++ left ∧
    (hand = [] ∨ ∃ w m, (s.worker w).carries = some (q, m) ∧ hand = [m]) ∧
    (left = [] ∨ (s.life q).hasQueue ∧ left = (s.queue q).messages)

theorem Traced.nothingLost {s : State M n} (traced : Traced s) (kept : Sealed s) (q : Nat) :
    NothingLost s q := by
  obtain ⟨⟨place, placed⟩, _, accounted⟩ := traced
  refine ⟨kept.found q, by simp [kept.forced], ?_⟩
  have left : (s.queue q).messages = [] ∨ (s.life q).hasQueue := by
    cases life : s.life q with
    | deleted => exact .inl (kept.empty q (.inr (.inr life)))
    | absent | registered => exact .inl (accounted.fresh q (by simp [life, Life.hasQueue]) (by simp [life]))
    | initialising | ready | failing | failed => exact .inr rfl
  have after : (s.queue q).messages = [] ∨
      (s.life q).hasQueue ∧ (s.queue q).messages = (s.queue q).messages := by
    rcases left with empty | has
    · exact .inl empty
    · exact .inr ⟨has, rfl⟩
  by_cases busy : ∃ w m, (s.worker w).carries = some (q, m)
  · obtain ⟨w, m, carries⟩ := busy
    have dropped : s.dropped q = [] := by
      refine (accounted.whole placed w q (Worker.carries_holds _ q m carries) ?_).1
      cases here : s.worker w <;> simp_all [Worker.carries, Worker.releases]
    refine ⟨[m], (s.queue q).messages, ?_, .inr ⟨w, m, carries, rfl⟩, after⟩
    simpa [dropped] using accounted.carried w q m carries
  · push Not at busy
    refine ⟨[], (s.queue q).messages, ?_, .inl rfl, after⟩
    simpa [kept.found q] using accounted.kept q busy

theorem exit_loses_nothing (weight : Fin n → Int) (harbor : UInt32) (s : State M n)
    (reached : Reached weight Quiet harbor s) (q : Nat) : NothingLost s q := by
  have both : Traced s ∧ Sealed s := by
    refine reached.invariant (fun s => Traced s ∧ Sealed s) ?_
      ⟨⟨⟨_, init_placed harbor⟩, init_granted harbor, init_accounted harbor⟩, init_sealed harbor⟩
    intro s action t ⟨traced, kept⟩ quiet stepped
    obtain ⟨place, placed⟩ := traced.placed
    exact ⟨step_traced weight action traced quiet.noReuse stepped,
      step_sealed weight action placed traced.granted kept quiet stepped⟩
  exact both.1.nothingLost both.2 q

def exitRun : List (Action Nat 1) :=
  launch ++ [.find 1 7, .push 0, .remove 1, .force 0] ++ List.replicate 5 (.work 0)

theorem exited_service_loses_nothing :
    ∃ s, Transition.run (step fun _ => -1) (State.init 0 : State Nat 1) exitRun = some s ∧
      s.life 0 = .deleted ∧ s.dropped 0 = [7] ∧ NothingLost s 0 := by
  refine ⟨_, rfl, rfl, rfl, ?_⟩
  have first : NoReuse (State.init 0 : State Nat 1) .register := by
    intro _ _ _ q alive
    simp [State.init, Life.present] at alive
  have quiet : Transition.Along (step fun _ => -1) Quiet (State.init 0) exitRun := by
    refine And.intro first ?_
    have nobody (s : State Nat 1) (senders : s.senders = []) (exiters : s.exiters = []) (q : Nat) :
        Unsought s q := ⟨by simp [senders], by simp [exiters]⟩
    repeat' first | exact trivial | exact fun q _ _ => nobody _ rfl rfl q | apply And.intro
  exact exit_loses_nothing (fun _ => -1) 0 _ (Transition.Path.of_run exitRun (.refl _) quiet rfl) 0

theorem exit_loses_late_message :
    ∃ s, Transition.run (step fun _ => -1) (State.init 0 : State Nat 1)
        (launch ++ [.find 1 7, .remove 1, .force 0] ++ List.replicate 4 (.work 0) ++ [.push 0]) =
          some s ∧
      s.accepted 0 = [7] ∧ ¬NothingLost s 0 := by
  refine ⟨_, rfl, rfl, ?_⟩
  intro kept
  have found : [7] = [] := kept.found
  contradiction

end Pskynet.Dispatch
