import Pskynet.Timer.Firing

set_option autoImplicit false

namespace Pskynet.TimerWheel

open Server

-- Where the timer thread stands in `timer_update`: before it, in the loop of the first
-- `timer_execute`, before `timer_shift`, after it, and in the loop of the second one.
inductive Phase where
  | idle
  | before (idx : Fin 256)
  | shift
  | shifted
  | after (idx : Fin 256)
  deriving DecidableEq, Repr

structure Added where
  tick : Nat
  time : Int
  event : TimerEvent

def Added.due (added : Added) : Nat := added.tick + added.time.toNat

def Added.node (added : Added) : TimerNode TimerEvent :=
  { expire := UInt32.ofInt added.time + UInt32.ofNat added.tick, arg := added.event }

structure Push where
  tick : Nat
  handle : UInt32
  message : SnMessage

-- `ticks` counts the calls of `timer_shift`; it and the two lists are the history of the run.
structure World where
  timer : Timer TimerEvent
  phase : Phase
  ticks : Nat
  added : List Added
  pushed : List Push

inductive Action where
  | add (event : TimerEvent) (time : Int)
  | update

def World.init : World where
  timer := timerCreateTimer
  phase := .idle
  ticks := 0
  added := []
  pushed := []

def nearIndex (T : Timer TimerEvent) : Fin 256 :=
  Fin.ofNat 256 (T.time &&& timeNearMask).toNat

-- One iteration of the loop of `timer_execute`: the list is taken under the lock and
-- dispatched, or the loop ends and the thread goes on to `next`.
def execute (w : World) (idx : Fin 256) (next : Phase) : World :=
  if w.timer.near idx = [] then { w with phase := next }
  else
    let (current, timer) := linkClear w.timer (.near idx)
    { w with
      timer := timer
      pushed := w.pushed ++ (dispatchList current).map fun (handle, message) =>
        { tick := w.ticks, handle := handle, message := message } }

def update (w : World) : World :=
  match w.phase with
  | .idle => { w with phase := .before (nearIndex w.timer) }
  | .before idx => execute w idx .shift
  | .shift => { w with timer := timerShift w.timer, ticks := w.ticks + 1, phase := .shifted }
  | .shifted => { w with phase := .after (nearIndex w.timer) }
  | .after idx => execute w idx .idle

def step (w : World) : Action → World
  | .add event time =>
      { w with
        timer := timerAdd w.timer event time
        added := w.added ++ [{ tick := w.ticks, time := time, event := event }] }
  | .update => update w

def run (actions : List Action) : World := actions.foldl step World.init

def Action.Valid : Action → Prop
  | .add _ time => 0 < time ∧ time ≤ 2 ^ 31 - 1
  | .update => True

def World.pushedAt (w : World) (k : Nat) : List (UInt32 × SnMessage) :=
  (w.pushed.filter (fun push => push.tick = k)).map fun push => (push.handle, push.message)

def World.dueAt (w : World) (k : Nat) : List TimerEvent :=
  (w.added.filter (fun added => added.due = k)).map Added.event

def World.frontier (w : World) : Nat :=
  if w.timer.near (nearIndex w.timer) = [] then w.ticks + 1 else w.ticks

def World.pendingFrom (w : World) (m : Nat) (e : UInt32) : List (TimerNode TimerEvent) :=
  Expiring e ((w.added.filter (fun added => m ≤ added.due)).map Added.node)

def World.Settled (w : World) : Prop :=
  w.phase ≠ .shifted ∧ ∀ idx, w.phase ≠ .after idx

theorem expire_node (added : Added) (positive : 0 < added.time) :
    added.node.expire = UInt32.ofNat added.due := by
  have cast : UInt32.ofInt added.time = UInt32.ofNat added.time.toNat := by
    apply UInt32.toNat_inj.mp
    rw [UInt32.ofInt, UInt32.toNat_ofNat', UInt32.toNat_ofNat']
    omega
  rw [Added.node, Added.due, cast, ← UInt32.ofNat_add, Nat.add_comm]

theorem nearIndex_eq (T : Timer TimerEvent) : nearIndex T = Fin.ofNat 256 T.time.toNat := by
  rw [nearIndex, Words.toNat_and_mask 8 _ timeNearMask (by decide)]
  simp [Fin.ofNat]

theorem slotFor_now (e : UInt32) (T : Timer TimerEvent) :
    slotFor e T.time = .near (nearIndex T) ↔ e = T.time := by
  rw [slotFor_eq_placement, nearIndex_eq]
  constructor
  · intro here
    exact UInt32.toNat_inj.mp (placement_now _ _ here)
  · intro same
    simp [same, placement]

-- Everything due before tick `m` has been pushed, at its own tick and in the order of the
-- calls of `timer_add`, and the wheel holds exactly the rest.
structure Correct (w : World) (m : Nat) : Prop where
  time : w.timer.time = UInt32.ofNat w.ticks
  window : ∀ added ∈ w.added, added.tick ≤ w.ticks ∧ 0 < added.time ∧ added.time ≤ 2 ^ 31 - 1
  pushed : ∀ k, w.pushedAt k = if k < m then (w.dueAt k).map response else []
  holds : Holds w.timer (w.pendingFrom m)

theorem Correct.due_now {w : World} {m : Nat} (correct : Correct w m) (added : Added)
    (member : added ∈ w.added) (left : w.ticks ≤ added.due) :
    added.node.expire = w.timer.time ↔ added.due = w.ticks := by
  obtain ⟨early, positive, small⟩ := correct.window added member
  rw [expire_node added positive, correct.time, ← UInt32.toNat_inj, UInt32.toNat_ofNat',
    UInt32.toNat_ofNat']
  unfold Added.due at left ⊢
  omega

theorem Correct.pending_now {w : World} {m : Nat} (correct : Correct w m) :
    w.pendingFrom w.ticks w.timer.time =
      (w.added.filter (fun added => added.due = w.ticks)).map Added.node := by
  simp only [World.pendingFrom, Expiring, List.filter_map, List.filter_filter]
  congr 1
  apply List.filter_congr
  intro added member
  by_cases left : w.ticks ≤ added.due
  · simp [left, correct.due_now added member left]
  · have past : added.due ≠ w.ticks := by omega
    simp [left, past]

theorem Correct.near_now {w : World} (correct : Correct w w.ticks) :
    w.timer.near (nearIndex w.timer) =
      (w.added.filter (fun added => added.due = w.ticks)).map Added.node := by
  have contents := correct.holds (.near (nearIndex w.timer)) w.timer.time
  rw [if_pos ((slotFor_now _ _).mpr rfl).symm, correct.pending_now] at contents
  rw [← contents, Expiring, eq_comm]
  apply List.filter_eq_self.mpr
  intro node member
  have other := correct.holds (.near (nearIndex w.timer)) node.expire
  by_contra different
  have elsewhere : Slot.near (nearIndex w.timer) ≠ slotFor node.expire w.timer.time := by
    intro same
    exact different (by simpa using (slotFor_now _ _).mp same.symm)
  rw [if_neg elsewhere, Expiring, List.filter_eq_nil_iff] at other
  exact other node member (by simp)

theorem Correct.pending_later {w : World} {m : Nat} (correct : Correct w m) (e : UInt32) :
    w.pendingFrom (w.ticks + 1) e =
      if e = w.timer.time then [] else w.pendingFrom w.ticks e := by
  simp only [World.pendingFrom, Expiring, List.filter_map, List.filter_filter]
  split_ifs with now
  · rw [List.map_eq_nil_iff, List.filter_eq_nil_iff]
    intro added member
    by_cases left : w.ticks + 1 ≤ added.due
    · have late : added.due ≠ w.ticks := by omega
      simp [now, correct.due_now added member (by omega), late]
    · simp [left]
  · congr 1
    apply List.filter_congr
    intro added member
    by_cases same : added.due = w.ticks
    · have expires := (correct.due_now added member (by omega)).mpr same
      simp [expires, Ne.symm now]
    · have equal : w.ticks + 1 ≤ added.due ↔ w.ticks ≤ added.due := by omega
      simp [equal]

theorem Correct.advance {w : World} (correct : Correct w w.ticks)
    (empty : w.timer.near (nearIndex w.timer) = []) : Correct w (w.ticks + 1) := by
  have none := correct.near_now
  rw [empty, eq_comm, List.map_eq_nil_iff] at none
  refine ⟨correct.time, correct.window, ?_, ?_⟩
  · intro k
    rw [correct.pushed k]
    by_cases now : k = w.ticks
    · simp [now, World.dueAt, none]
    · have same : k < w.ticks + 1 ↔ k < w.ticks := by omega
      simp [same]
  · have same : w.pendingFrom (w.ticks + 1) = w.pendingFrom w.ticks := by
      funext e
      rw [correct.pending_later e]
      split_ifs with now
      · rw [now, correct.pending_now, none, List.map_nil]
      · rfl
    rw [same]
    exact correct.holds

theorem Correct.setPhase {w : World} {m : Nat} (correct : Correct w m) (phase : Phase) :
    Correct { w with phase := phase } m :=
  ⟨correct.time, correct.window, correct.pushed, correct.holds⟩

theorem Correct.frontier {w : World} {m : Nat} (correct : Correct w m)
    (cases : m = w.ticks ∨ m = w.ticks + 1 ∧ w.timer.near (nearIndex w.timer) = []) :
    Correct w w.frontier := by
  unfold World.frontier
  rcases cases with now | ⟨next, empty⟩
  · subst now
    split_ifs with empty
    · exact correct.advance empty
    · exact correct
  · subst next
    simpa [empty] using correct

theorem timerAdd_correct (w : World) (m : Nat) (event : TimerEvent) (time : Int)
    (valid : (Action.add event time).Valid) (late : m ≤ w.ticks + 1) (correct : Correct w m) :
    Correct (step w (.add event time)) m := by
  obtain ⟨positive, small⟩ := valid
  let added : Added := { tick := w.ticks, time := time, event := event }
  have future : m ≤ added.due := by
    simp only [Added.due, added]
    omega
  refine ⟨?_, ?_, ?_, ?_⟩
  · simpa [step, timerAdd] using correct.time
  · intro other member
    rcases List.mem_append.mp member with old | new
    · exact correct.window other old
    · rw [List.mem_singleton.mp new]
      exact ⟨le_refl _, positive, small⟩
  · intro k
    have before := correct.pushed k
    simp only [step, World.pushedAt, World.dueAt] at before ⊢
    rw [before]
    by_cases past : k < m
    · have other : added.due ≠ k := by omega
      have none : List.filter (fun added => added.due = k) [added] = [] := by simp [other]
      rw [List.filter_append, none, List.append_nil]
    · simp [past]
  · have node : ({ expire := UInt32.ofInt time + w.timer.time, arg := event } : TimerNode TimerEvent) =
        added.node := by
      simp [Added.node, added, correct.time]
    have same : (step w (.add event time)).pendingFrom m =
        fun e => w.pendingFrom m e ++ Expiring e [added.node] := by
      funext e
      have kept : List.filter (fun added => m ≤ added.due) [added] = [added] := by simp [future]
      change Expiring e (((w.added ++ [added]).filter fun added => m ≤ added.due).map Added.node) = _
      rw [List.filter_append, kept, List.map_append, Expiring, List.filter_append]
      rfl
    rw [same]
    simp only [step, timerAdd, node]
    exact addNode_holds w.timer _ _ correct.holds

theorem timerAdd_near (w : World) (event : TimerEvent) (time : Int)
    (valid : (Action.add event time).Valid) :
    (timerAdd w.timer event time).near (nearIndex (timerAdd w.timer event time)) =
      w.timer.near (nearIndex w.timer) := by
  obtain ⟨positive, small⟩ := valid
  have elsewhere : Slot.near (nearIndex w.timer) ≠
      slotFor (UInt32.ofInt time + w.timer.time) w.timer.time := by
    intro here
    have same := (slotFor_now _ _).mp here.symm
    have value := congrArg UInt32.toNat same
    rw [UInt32.toNat_add, UInt32.ofInt, UInt32.toNat_ofNat'] at value
    have bound := w.timer.time.toNat_lt
    omega
  have index : nearIndex (timerAdd w.timer event time) = nearIndex w.timer := by
    simp [nearIndex, timerAdd]
  have unchanged := list_setList w.timer (slotFor (UInt32.ofInt time + w.timer.time) w.timer.time)
    (.near (nearIndex w.timer)) (w.timer.list (slotFor (UInt32.ofInt time + w.timer.time)
      w.timer.time) ++ [{ expire := UInt32.ofInt time + w.timer.time, arg := event }])
  rw [if_neg elsewhere] at unchanged
  rw [index]
  exact unchanged

theorem Correct.ahead {w : World} (correct : Correct w (w.ticks + 1)) (e : UInt32)
    (present : w.pendingFrom (w.ticks + 1) e ≠ []) : Ahead e.toNat w.timer.time.toNat := by
  obtain ⟨node, member⟩ := List.exists_mem_of_ne_nil _ present
  simp only [World.pendingFrom, Expiring, List.mem_filter, List.mem_map, decide_eq_true_eq] at member
  obtain ⟨⟨added, ⟨inside, left⟩, rfl⟩, expires⟩ := member
  obtain ⟨early, positive, small⟩ := correct.window added inside
  rw [← expires, expire_node added positive, correct.time, UInt32.toNat_ofNat',
    UInt32.toNat_ofNat']
  apply ahead_of_window
  · omega
  · unfold Added.due
    omega

theorem timerShift_correct (w : World) (correct : Correct w (w.ticks + 1)) :
    Correct { w with timer := timerShift w.timer, ticks := w.ticks + 1, phase := .shifted }
      (w.ticks + 1) := by
  refine ⟨?_, ?_, correct.pushed, timerShift_holds w.timer _ correct.holds correct.ahead⟩
  · simp [time_timerShift, correct.time]
  · intro added member
    obtain ⟨early, positive, small⟩ := correct.window added member
    exact ⟨Nat.le_succ_of_le early, positive, small⟩

theorem execute_correct (w : World) (next : Phase) (correct : Correct w w.frontier) :
    Correct (execute w (nearIndex w.timer) next) (execute w (nearIndex w.timer) next).frontier := by
  unfold execute
  split_ifs with empty
  · exact correct.setPhase next
  · have now : w.frontier = w.ticks := if_neg empty
    rw [now] at correct
    have list := correct.near_now
    simp only [linkClear]
    apply Correct.frontier (m := w.ticks + 1)
    · refine ⟨?_, correct.window, ?_, ?_⟩
      · simpa using correct.time
      · intro k
        have before := correct.pushed k
        simp only [World.pushedAt, World.dueAt, List.filter_append, List.map_append] at before ⊢
        rw [before]
        by_cases here : k = w.ticks
        · simp [here, dispatchList, Timer.list, list, List.filter_map, Function.comp_def, Added.node]
        · have same : k < w.ticks + 1 ↔ k < w.ticks := by omega
          simp [same, List.filter_map, Function.comp_def, Ne.symm here]
      · apply clear_holds w.timer _ (w.pendingFrom w.ticks) _ correct.holds
        intro e
        simp only [slotFor_now]
        exact correct.pending_later e
    · right
      refine ⟨rfl, ?_⟩
      have cleared := list_setList w.timer (.near (nearIndex w.timer)) (.near (nearIndex w.timer)) []
      simpa [nearIndex, Timer.list] using cleared

structure Invariant (w : World) : Prop where
  correct : Correct w w.frontier
  index : ∀ idx, w.phase = .before idx ∨ w.phase = .after idx → idx = nearIndex w.timer
  settled : w.Settled → w.frontier = w.ticks + 1

theorem frontier_le (w : World) : w.frontier ≤ w.ticks + 1 := by
  unfold World.frontier
  split_ifs <;> omega

theorem execute_invariant (w : World) (idx : Fin 256) (next : Phase) (inv : Invariant w)
    (here : w.phase = .before idx ∧ next = .shift ∨ w.phase = .after idx ∧ next = .idle) :
    Invariant (execute w idx next) := by
  have index : idx = nearIndex w.timer :=
    inv.index idx (here.imp And.left And.left)
  subst index
  refine ⟨execute_correct w next inv.correct, ?_, ?_⟩
  · intro idx slot
    unfold execute at slot ⊢
    split_ifs at slot ⊢ with empty
    · rcases here with ⟨_, rfl⟩ | ⟨_, rfl⟩ <;> simp at slot
    · have same := inv.index idx slot
      simpa [nearIndex, linkClear] using same
  · intro settled
    unfold execute at settled ⊢
    split_ifs at settled ⊢ with empty
    · simp [World.frontier, empty]
    · have done := inv.settled settled
      simp [World.frontier, empty] at done

theorem step_invariant (w : World) (action : Action) (valid : action.Valid) (inv : Invariant w) :
    Invariant (step w action) := by
  cases action with
  | add event time =>
    have near := timerAdd_near w event time valid
    have frontier : (step w (.add event time)).frontier = w.frontier := by
      simp only [step, World.frontier, near]
    refine ⟨?_, ?_, ?_⟩
    · rw [frontier]
      exact timerAdd_correct w _ event time valid (frontier_le w) inv.correct
    · intro idx slot
      have same := inv.index idx slot
      simpa [step, nearIndex, timerAdd] using same
    · intro settled
      rw [frontier]
      exact inv.settled settled
  | update =>
    simp only [step, update]
    cases phase : w.phase with
    | idle =>
      refine ⟨inv.correct.setPhase _, ?_, ?_⟩
      · rintro idx (same | same)
        · simpa [eq_comm] using same
        · simp at same
      · intro _
        exact inv.settled (by simp [World.Settled, phase])
    | before idx => exact execute_invariant w idx .shift inv (.inl ⟨phase, rfl⟩)
    | shift =>
      have done := inv.settled (by simp [World.Settled, phase])
      have correct := inv.correct
      rw [done] at correct
      refine ⟨(timerShift_correct w correct).frontier (.inl rfl), ?_, ?_⟩
      · simp
      · simp [World.Settled]
    | shifted =>
      refine ⟨inv.correct.setPhase _, ?_, ?_⟩
      · rintro idx (same | same)
        · simp at same
        · simpa [eq_comm] using same
      · simp [World.Settled]
    | after idx => exact execute_invariant w idx .idle inv (.inr ⟨phase, rfl⟩)

theorem init_invariant : Invariant World.init := by
  refine ⟨⟨rfl, ?_, ?_, ?_⟩, ?_, ?_⟩
  · simp [World.init]
  · simp [World.init, World.pushedAt, World.dueAt]
  · intro slot e
    cases slot <;> simp [World.init, World.pendingFrom, Expiring, timerCreateTimer, Timer.list]
  · simp [World.init]
  · simp [World.init, World.frontier, timerCreateTimer]

theorem run_invariant (actions : List Action) (valid : ∀ action ∈ actions, action.Valid) :
    Invariant (run actions) := by
  have along (w : World) (inv : Invariant w) : Invariant (actions.foldl step w) := by
    induction actions generalizing w with
    | nil => exact inv
    | cons action rest ih =>
      apply ih (fun other member => valid other (List.mem_cons_of_mem _ member))
      exact step_invariant w action (valid action (by simp)) inv
  exact along World.init init_invariant

def World.progress (w : World) : Nat :=
  6 * w.ticks +
    match w.phase with
    | .shifted => 0
    | .after _ => if w.timer.near (nearIndex w.timer) = [] then 2 else 1
    | .idle => 3
    | .before _ => 4
    | .shift => 5

def Action.weight : Action → Nat
  | .add .. => 0
  | .update => 1

theorem step_progress (w : World) (action : Action) (valid : action.Valid) (inv : Invariant w) :
    w.progress + action.weight ≤ (step w action).progress := by
  cases action with
  | add event time =>
    have near := timerAdd_near w event time valid
    simp [World.progress, step, Action.weight, near]
  | update =>
    simp only [step, update, Action.weight]
    cases phase : w.phase with
    | idle => simp [World.progress, phase]
    | before idx =>
      have done := inv.settled (by simp [World.Settled, phase])
      have index := inv.index idx (.inl phase)
      have empty : w.timer.near idx = [] := by
        by_contra full
        simp [World.frontier, ← index, full] at done
      simp [World.progress, execute, phase, empty]
    | shift => simp [World.progress, phase]; omega
    | shifted => simp [World.progress, phase]; split_ifs <;> omega
    | after idx =>
      have index := inv.index idx (.inr phase)
      by_cases empty : w.timer.near idx = []
      · simp [World.progress, execute, phase, empty]
        split_ifs <;> omega
      · have cleared := list_setList w.timer (.near idx) (.near idx) []
        have same : nearIndex (w.timer.setList (.near idx) []) = idx := by
          rw [index]
          simp [nearIndex]
        simp only [Timer.list, if_true] at cleared
        simp [World.progress, execute, linkClear, phase, empty, same, cleared, ← index]

theorem run_progress (actions : List Action) (valid : ∀ action ∈ actions, action.Valid) :
    (actions.map Action.weight).sum + 3 ≤ (run actions).progress := by
  have along (w : World) (inv : Invariant w) :
      w.progress + (actions.map Action.weight).sum ≤ (actions.foldl step w).progress := by
    induction actions generalizing w with
    | nil => simp
    | cons action rest ih =>
      have first := valid action (by simp)
      have next := ih (fun other member => valid other (List.mem_cons_of_mem _ member))
        (step w action) (step_invariant w action first inv)
      have now := step_progress w action first inv
      simp only [List.map_cons, List.sum_cons, List.foldl_cons]
      omega
  have total := along World.init init_invariant
  have start : World.init.progress = 3 := rfl
  unfold run
  omega

theorem progress_frontier (w : World) (k : Nat) (inv : Invariant w)
    (far : 6 * k + 3 ≤ w.progress) : k < w.frontier := by
  by_cases settled : w.Settled
  · have done := inv.settled settled
    unfold World.progress at far
    split at far <;> (try split_ifs at far) <;> omega
  · unfold World.progress at far
    unfold World.frontier
    cases phase : w.phase with
    | shifted => simp [phase] at far; split_ifs <;> omega
    | after idx => simp [phase] at far; split_ifs at far ⊢ <;> omega
    | idle | before | shift => simp [World.Settled, phase] at settled

-- `placed` puts each node that has not been pushed into exactly one list, and `served`
-- says that this list comes up between now and the tick at which the node is due.
structure ExactFiring (w : World) : Prop where
  time : w.timer.time = UInt32.ofNat w.ticks
  due : ∀ added ∈ w.added,
    IsLeast { k | added.tick < k ∧
      UInt32.ofNat k = UInt32.ofInt added.time + UInt32.ofNat added.tick } added.due
  pushed : ∀ k, w.pushedAt k = if k < w.frontier then (w.dueAt k).map response else []
  frontier : w.ticks ≤ w.frontier ∧ w.frontier ≤ w.ticks + 1 ∧
    (w.Settled → w.frontier = w.ticks + 1)
  placed : ∀ slot e, Expiring e (w.timer.list slot) =
    if slot = slotFor e w.timer.time then w.pendingFrom w.frontier e else []
  served : ∀ slot, ∀ node ∈ w.timer.list slot, ∃ added ∈ w.added, added.node = node ∧
    ∃ k, w.frontier ≤ k ∧ k ≤ added.due ∧ Served slot k

theorem due_least (added : Added) (positive : 0 < added.time) (small : added.time ≤ 2 ^ 31 - 1) :
    IsLeast { k | added.tick < k ∧
      UInt32.ofNat k = UInt32.ofInt added.time + UInt32.ofNat added.tick } added.due := by
  have expire : UInt32.ofInt added.time + UInt32.ofNat added.tick = UInt32.ofNat added.due :=
    expire_node added positive
  rw [expire]
  constructor
  · refine ⟨?_, rfl⟩
    unfold Added.due
    omega
  · rintro k ⟨later, same⟩
    have value := congrArg UInt32.toNat same
    rw [UInt32.toNat_ofNat', UInt32.toNat_ofNat'] at value
    unfold Added.due at value ⊢
    omega

theorem Correct.served {w : World} (correct : Correct w w.frontier) (slot : Slot)
    (node : TimerNode TimerEvent) (member : node ∈ w.timer.list slot) :
    ∃ added ∈ w.added, added.node = node ∧
      ∃ k, w.frontier ≤ k ∧ k ≤ added.due ∧ Served slot k := by
  have contents := correct.holds slot node.expire
  have inside : node ∈ Expiring node.expire (w.timer.list slot) := by
    simpa [Expiring] using member
  rw [contents] at inside
  split_ifs at inside with here
  · simp only [World.pendingFrom, Expiring, List.mem_filter, List.mem_map, decide_eq_true_eq] at inside
    obtain ⟨⟨added, ⟨known, left⟩, same⟩, _⟩ := inside
    obtain ⟨early, positive, small⟩ := correct.window added known
    refine ⟨added, known, same, ?_⟩
    rw [here, ← same, expire_node added positive, correct.time, slotFor_eq_placement,
      UInt32.toNat_ofNat', UInt32.toNat_ofNat']
    have latest : added.due < w.ticks + 2 ^ 31 := by
      unfold Added.due
      omega
    by_cases now : added.due ≤ w.ticks
    · have exactly : added.due = w.ticks := by
        have low : w.ticks ≤ w.frontier := by unfold World.frontier; split_ifs <;> omega
        omega
      refine ⟨added.due, left, le_refl _, ?_⟩
      simp [exactly, placement, Served, Fin.ofNat]
    · obtain ⟨k, after, before, served⟩ := placement_served w.ticks added.due (by omega) latest
      refine ⟨k, ?_, before, served⟩
      have := frontier_le w
      omega
  · simp at inside

theorem timers_fire_exactly (actions : List Action)
    (valid : ∀ action ∈ actions, action.Valid) :
    ExactFiring (run actions) ∧
      ∀ k, 6 * k ≤ (actions.map Action.weight).sum → k < (run actions).frontier := by
  have inv := run_invariant actions valid
  constructor
  · refine ⟨inv.correct.time, ?_, inv.correct.pushed, ⟨?_, frontier_le _, inv.settled⟩,
      inv.correct.holds, inv.correct.served⟩
    · intro added member
      obtain ⟨_, positive, small⟩ := inv.correct.window added member
      exact due_least added positive small
    · unfold World.frontier
      split_ifs <;> omega
  · intro k enough
    have far := run_progress actions valid
    exact progress_frontier _ k inv (by omega)

theorem one_timer_fires :
    let actions := Action.add ⟨0x1000005, 7⟩ 1 :: List.replicate 6 .update
    (∀ action ∈ actions, action.Valid) ∧
      (run actions).pushedAt 1 = [response ⟨0x1000005, 7⟩] := by
  intro actions
  have valid : ∀ action ∈ actions, action.Valid := by
    intro action member
    simp only [actions, List.mem_cons, List.mem_replicate] at member
    rcases member with rfl | ⟨_, rfl⟩
    · exact ⟨by decide, by decide⟩
    · trivial
  obtain ⟨firing, passed⟩ := timers_fire_exactly actions valid
  refine ⟨valid, ?_⟩
  rw [firing.pushed 1, if_pos (passed 1 (by decide))]
  rfl

end Pskynet.TimerWheel
