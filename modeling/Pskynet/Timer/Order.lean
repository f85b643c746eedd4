import Pskynet.Timer.Run

set_option autoImplicit false

namespace Pskynet.TimerWheel

open Server

variable {α β : Type}

def TimerNode.map (f : α → β) (node : TimerNode α) : TimerNode β :=
  { expire := node.expire, arg := f node.arg }

def Timer.map (f : α → β) (T : Timer α) : Timer β where
  near := fun idx => (T.near idx).map (TimerNode.map f)
  t := fun level idx => (T.t level idx).map (TimerNode.map f)
  time := T.time

theorem list_map (f : α → β) (T : Timer α) (slot : Slot) :
    (T.map f).list slot = (T.list slot).map (TimerNode.map f) := by
  cases slot <;> rfl

theorem map_setList (f : α → β) (T : Timer α) (slot : Slot) (nodes : List (TimerNode α)) :
    (T.setList slot nodes).map f = (T.map f).setList slot (nodes.map (TimerNode.map f)) := by
  cases slot with
  | near idx =>
    simp only [Timer.setList, Timer.map, Timer.mk.injEq, and_true]
    funext other
    by_cases same : other = idx
    · subst same
      simp
    · simp [same]
  | level level idx =>
    simp only [Timer.setList, Timer.map, Timer.mk.injEq, and_true, true_and]
    funext other slot
    by_cases same : other = level
    · subst same
      by_cases here : slot = idx
      · subst here
        simp
      · simp [here]
    · simp [same]

theorem map_addNode (f : α → β) (T : Timer α) (node : TimerNode α) :
    (addNode T node).map f = addNode (T.map f) (node.map f) := by
  unfold addNode link
  rw [map_setList, list_map, List.map_append]
  rfl

theorem map_foldl_addNode (f : α → β) (nodes : List (TimerNode α)) (T : Timer α) :
    (nodes.foldl addNode T).map f = (nodes.map (TimerNode.map f)).foldl addNode (T.map f) := by
  induction nodes generalizing T with
  | nil => rfl
  | cons node rest ih =>
    rw [List.foldl_cons, ih, map_addNode]
    rfl

theorem map_timerShift (f : α → β) (T : Timer α) : (timerShift T).map f = timerShift (T.map f) := by
  rw [timerShift_eq, timerShift_eq]
  have time : (T.map f).time = T.time := rfl
  rw [time]
  cases cascaded (T.time + 1).toNat with
  | none => rfl
  | some slot =>
    simp only [refill, list_setTime]
    rw [map_foldl_addNode, map_setList, list_map]
    rfl

-- The nodes of an expiry that are still in the wheel, in the list where `add_node` would put them.
def pendingOf (T : Timer α) (e : UInt32) : List (TimerNode α) :=
  Expiring e (T.list (slotFor e T.time))

theorem Holds.pending_eq {T : Timer α} {pending : UInt32 → List (TimerNode α)}
    (holds : Holds T pending) : pending = pendingOf T := by
  funext e
  rw [pendingOf, holds, if_pos rfl]

-- A run in which each node carries the number of its call of `timer_add`; `dispatched` are the
-- numbers of the nodes in the order in which they were dispatched.
structure Numbered where
  world : World
  timer : Timer (Nat × TimerEvent)
  dispatched : List Nat

namespace Numbered

def init : Numbered where
  world := .init
  timer := timerCreateTimer
  dispatched := []

def take (n : Numbered) (idx : Fin 256) : Numbered :=
  let (current, timer) := linkClear n.timer (.near idx)
  { n with timer := timer, dispatched := n.dispatched ++ current.map fun node => node.arg.1 }

def step (n : Numbered) (action : Action) : Numbered :=
  let moved :=
    match action with
    | .add event time => { n with timer := timerAdd n.timer (n.world.added.length, event) time }
    | .update =>
        match n.world.phase with
        | .shift => { n with timer := timerShift n.timer }
        | .before idx | .after idx => n.take idx
        | .idle | .shifted => n
  { moved with world := TimerWheel.step n.world action }

def run (actions : List Action) : Numbered := actions.foldl step init

def Pending (n : Numbered) (i : Nat) (e : UInt32) : Prop :=
  ∃ slot, ∃ node ∈ n.timer.list slot, node.arg.1 = i ∧ node.expire = e

-- The numbers are those of the calls, the nodes of one expiry lie in one list in the order of
-- their calls, and each was dispatched at most once and then is gone.
structure Ordered (n : Numbered) : Prop where
  erased : n.timer.map Prod.snd = n.world.timer
  holds : Holds n.timer (pendingOf n.timer)
  sorted : ∀ e, (pendingOf n.timer e).Pairwise fun first second => first.arg.1 < second.arg.1
  called : ∀ e, ∀ node ∈ pendingOf n.timer e, ∃ added,
    n.world.added[node.arg.1]? = some added ∧ added.event = node.arg.2 ∧ added.node.expire = e
  left : ∀ e, ∀ node ∈ pendingOf n.timer e, node.arg.1 ∉ n.dispatched
  once : n.dispatched.Nodup
  pushed : n.world.pushed.map (fun push => some (push.handle, push.message)) =
    n.dispatched.map fun i => n.world.added[i]?.map fun added => response added.event

theorem Ordered.time {n : Numbered} (ordered : Ordered n) : n.timer.time = n.world.timer.time := by
  rw [← ordered.erased]
  rfl

theorem Ordered.pending_iff {n : Numbered} (ordered : Ordered n) (i : Nat) (e : UInt32) :
    n.Pending i e ↔ i ∈ (pendingOf n.timer e).map fun node => node.arg.1 := by
  simp only [Pending, List.mem_map]
  constructor
  · rintro ⟨slot, node, member, same, rfl⟩
    have inside : node ∈ Expiring node.expire (n.timer.list slot) := by
      simpa [Expiring] using member
    rw [ordered.holds slot node.expire] at inside
    split_ifs at inside
    · exact ⟨node, inside, same⟩
    · contradiction
  · rintro ⟨node, member, same⟩
    simp only [pendingOf, Expiring, List.mem_filter, decide_eq_true_eq] at member
    exact ⟨_, node, member.1, same, member.2⟩

theorem Ordered.near_now {n : Numbered} (ordered : Ordered n) :
    n.timer.near (nearIndex n.world.timer) = pendingOf n.timer n.world.timer.time := by
  have here : slotFor n.world.timer.time n.timer.time = .near (nearIndex n.world.timer) := by
    rw [ordered.time]
    exact (slotFor_now _ _).mpr rfl
  rw [pendingOf, here, Expiring, eq_comm]
  refine List.filter_eq_self.mpr ?_
  intro node member
  have contents := ordered.holds (.near (nearIndex n.world.timer)) node.expire
  by_contra different
  rw [if_neg, Expiring, List.filter_eq_nil_iff] at contents
  · exact contents node member (by simp)
  · intro same
    rw [ordered.time] at same
    exact different (by simpa using (slotFor_now _ _).mp same.symm)

theorem setList_nil (T : Timer α) (slot : Slot) (empty : T.list slot = []) :
    T.setList slot [] = T := by
  cases slot with
  | near idx =>
    have same : Function.update T.near idx [] = T.near := by
      rw [← show T.near idx = [] from empty, Function.update_eq_self]
    rw [Timer.setList, same]
  | level level idx =>
    have same : Function.update T.t level (Function.update (T.t level) idx []) = T.t := by
      rw [← show T.t level idx = [] from empty, Function.update_eq_self, Function.update_eq_self]
    rw [Timer.setList, same]

theorem execute_timer (w : World) (idx : Fin 256) (next : Phase) :
    (execute w idx next).timer = w.timer.setList (.near idx) [] := by
  unfold execute
  split_ifs with empty
  · exact (setList_nil w.timer (.near idx) empty).symm
  · rfl

theorem execute_pushed (w : World) (idx : Fin 256) (next : Phase) :
    (execute w idx next).pushed = w.pushed ++
      (dispatchList (w.timer.near idx)).map fun (handle, message) =>
        { tick := w.ticks, handle := handle, message := message } := by
  unfold execute
  split_ifs with empty
  · simp [empty, dispatchList]
  · rfl

theorem execute_added (w : World) (idx : Fin 256) (next : Phase) :
    (execute w idx next).added = w.added := by
  unfold execute
  split_ifs <;> rfl

theorem Ordered.moved {n : Numbered} (ordered : Ordered n) (world : World)
    (timer : Timer (Nat × TimerEvent)) (erased : timer.map Prod.snd = world.timer)
    (holds : Holds timer (pendingOf n.timer)) (added : world.added = n.world.added)
    (pushed : world.pushed = n.world.pushed) :
    Ordered { n with world := world, timer := timer } := by
  have same : pendingOf timer = pendingOf n.timer := holds.pending_eq.symm
  refine ⟨erased, ?_, ?_, ?_, ?_, ordered.once, ?_⟩
  · rw [same]
    exact holds
  · rw [same]
    exact ordered.sorted
  · rw [same, added]
    exact ordered.called
  · rw [same]
    exact ordered.left
  · rw [pushed, added]
    exact ordered.pushed

theorem Ordered.add_holds {n : Numbered} (ordered : Ordered n) (event : TimerEvent) (time : Int) :
    Holds (n.step (.add event time)).timer fun e => pendingOf n.timer e ++ Expiring e
      [{ expire := UInt32.ofInt time + n.timer.time, arg := (n.world.added.length, event) }] :=
  addNode_holds n.timer _ _ ordered.holds

theorem Ordered.add {n : Numbered} (ordered : Ordered n) (event : TimerEvent) (time : Int)
    (ticks : n.world.timer.time = UInt32.ofNat n.world.ticks) :
    Ordered (n.step (.add event time)) := by
  have grown := ordered.add_holds event time
  have same := grown.pending_eq
  have known : ∀ e, ∀ node ∈ pendingOf n.timer e, node.arg.1 < n.world.added.length := by
    intro e node member
    obtain ⟨added, found, _⟩ := ordered.called e node member
    exact (List.getElem?_eq_some_iff.mp found).1
  have counted : ∀ i ∈ n.dispatched, i < n.world.added.length := by
    intro i member
    have push := List.mem_map_of_mem (f := fun i => n.world.added[i]?.map fun added =>
      response added.event) member
    rw [← ordered.pushed, List.mem_map] at push
    obtain ⟨_, _, found⟩ := push
    by_contra late
    rw [List.getElem?_eq_none (not_lt.mp late)] at found
    contradiction
  refine ⟨?_, ?_, ?_, ?_, ?_, ordered.once, ?_⟩
  · change (addNode n.timer _).map Prod.snd = addNode n.world.timer _
    rw [map_addNode, ordered.erased, ordered.time]
    rfl
  · rw [← same]
    exact grown
  · intro e
    rw [← same, List.pairwise_append]
    refine ⟨ordered.sorted e, ?_, ?_⟩
    · exact (List.pairwise_singleton _ _).filter _
    · intro old member new fresh
      rw [List.mem_singleton.mp (List.mem_of_mem_filter fresh)]
      exact known e old member
  · intro e node member
    rw [← same, List.mem_append] at member
    rcases member with old | fresh
    · obtain ⟨added, found, rest⟩ := ordered.called e node old
      refine ⟨added, ?_, rest⟩
      change (n.world.added ++ [_])[node.arg.1]? = _
      rw [List.getElem?_append_left (known e node old), found]
    · simp only [Expiring, List.mem_filter, List.mem_singleton, decide_eq_true_eq] at fresh
      obtain ⟨rfl, rfl⟩ := fresh
      refine ⟨⟨n.world.ticks, time, event⟩, ?_, rfl, ?_⟩
      · change (n.world.added ++ [_])[n.world.added.length]? = _
        rw [List.getElem?_concat_length]
      · simp only [Added.node, ordered.time, ticks]
  · intro e node member
    rw [← same, List.mem_append] at member
    rcases member with old | fresh
    · exact ordered.left e node old
    · rw [List.mem_singleton.mp (List.mem_of_mem_filter fresh)]
      exact fun member => absurd (counted _ member) (lt_irrefl _)
  · change n.world.pushed.map _ = n.dispatched.map fun i => ((n.world.added ++ [_])[i]?).map _
    rw [ordered.pushed]
    refine List.map_congr_left ?_
    intro i member
    rw [List.getElem?_append_left (counted i member)]

theorem Ordered.take_holds {n : Numbered} (ordered : Ordered n) :
    Holds (n.take (nearIndex n.world.timer)).timer fun e =>
      if e = n.world.timer.time then [] else pendingOf n.timer e := by
  have index (e : UInt32) : slotFor e n.timer.time = .near (nearIndex n.world.timer) ↔
      e = n.world.timer.time := by
    rw [ordered.time]
    exact slotFor_now e n.world.timer
  refine clear_holds n.timer (nearIndex n.world.timer) (pendingOf n.timer) _ ordered.holds ?_
  intro e
  simp only [index]

theorem Ordered.take_dispatched {n : Numbered} (ordered : Ordered n) :
    (n.take (nearIndex n.world.timer)).dispatched = n.dispatched ++
      (pendingOf n.timer n.world.timer.time).map fun node => node.arg.1 := by
  rw [← ordered.near_now]
  rfl

theorem Ordered.take {n : Numbered} (ordered : Ordered n) (next : Phase) :
    Ordered { n.take (nearIndex n.world.timer) with
      world := execute n.world (nearIndex n.world.timer) next } := by
  have now := ordered.near_now
  have cleared := ordered.take_holds
  have same := cleared.pending_eq
  have taken := ordered.take_dispatched
  have later : ∀ e, ∀ node ∈ pendingOf (n.take (nearIndex n.world.timer)).timer e,
      e ≠ n.world.timer.time ∧ node ∈ pendingOf n.timer e := by
    intro e node member
    rw [← same] at member
    simp only at member
    split_ifs at member with present
    · contradiction
    · exact ⟨present, member⟩
  refine ⟨?_, ?_, ?_, ?_, ?_, ?_, ?_⟩
  · change (n.timer.setList (.near (nearIndex n.world.timer)) []).map Prod.snd = _
    rw [map_setList, ordered.erased, execute_timer]
    rfl
  · rw [← same]
    exact cleared
  · intro e
    rw [← same]
    simp only
    split_ifs
    · exact .nil
    · exact ordered.sorted e
  · intro e node member
    rw [execute_added]
    exact ordered.called e node (later e node member).2
  · intro e node member
    obtain ⟨other, inside⟩ := later e node member
    rw [taken, List.mem_append, not_or]
    refine ⟨ordered.left e node inside, ?_⟩
    rw [List.mem_map]
    rintro ⟨first, expiring, number⟩
    obtain ⟨one, found, _, expires⟩ := ordered.called _ first expiring
    obtain ⟨two, found', _, expires'⟩ := ordered.called e node inside
    rw [number, found', Option.some.injEq] at found
    rw [← expires', found, expires] at other
    exact other rfl
  · rw [taken, List.nodup_append]
    refine ⟨ordered.once, ?_, ?_⟩
    · rw [List.nodup_iff_pairwise_ne, List.pairwise_map]
      exact (ordered.sorted _).imp fun smaller => smaller.ne
    · rintro i old _ member rfl
      obtain ⟨node, inside, rfl⟩ := List.mem_map.mp member
      exact ordered.left _ node inside old
  · simp only
    rw [execute_pushed, execute_added, taken, List.map_append, List.map_append, ordered.pushed,
      ← ordered.erased]
    congr 1
    have list : (n.timer.map Prod.snd).near (nearIndex n.world.timer) =
        (pendingOf n.timer n.world.timer.time).map (TimerNode.map Prod.snd) := by
      rw [← now]
      rfl
    rw [ordered.erased] at list ⊢
    rw [list]
    simp only [dispatchList, List.map_map]
    refine List.map_congr_left ?_
    intro node member
    obtain ⟨added, found, event, _⟩ := ordered.called _ node member
    simp only [Function.comp_apply, found, Option.map_some, event]
    rfl

theorem Ordered.shift_holds {n : Numbered} (ordered : Ordered n) (inv : Invariant n.world)
    (phase : n.world.phase = .shift) : Holds (timerShift n.timer) (pendingOf n.timer) := by
  refine timerShift_holds n.timer _ ordered.holds ?_
  intro e present
  have done := inv.settled (by simp [World.Settled, phase])
  have correct := inv.correct
  rw [done] at correct
  rw [ordered.time]
  refine correct.ahead e ?_
  have contents := correct.holds (slotFor e n.world.timer.time) e
  rw [if_pos rfl] at contents
  rw [← contents, ← ordered.erased, list_map]
  obtain ⟨node, member⟩ := List.exists_mem_of_ne_nil _ present
  simp only [pendingOf, Expiring, List.mem_filter] at member
  refine List.ne_nil_of_mem (a := node.map Prod.snd) ?_
  exact List.mem_filter.mpr ⟨List.mem_map_of_mem member.1, member.2⟩

theorem Ordered.step {n : Numbered} (ordered : Ordered n) (inv : Invariant n.world)
    (action : Action) (valid : action.Valid) : Ordered (n.step action) := by
  cases action with
  | add event time => exact ordered.add event time inv.correct.time
  | update =>
    simp only [Numbered.step, TimerWheel.step, update]
    cases phase : n.world.phase with
    | idle => exact ordered.moved _ n.timer ordered.erased ordered.holds rfl rfl
    | shifted => exact ordered.moved _ n.timer ordered.erased ordered.holds rfl rfl
    | before idx =>
      have here := inv.index idx (.inl phase)
      subst here
      exact ordered.take .shift
    | after idx =>
      have here := inv.index idx (.inr phase)
      subst here
      exact ordered.take .idle
    | shift =>
      refine ordered.moved _ (timerShift n.timer) ?_ (ordered.shift_holds inv phase) rfl rfl
      rw [map_timerShift, ordered.erased]

theorem init_ordered : Ordered init := by
  have empty : pendingOf init.timer = fun _ => [] := by
    funext e
    simp only [pendingOf, init]
    cases slotFor e (timerCreateTimer : Timer (Nat × TimerEvent)).time <;> rfl
  refine ⟨rfl, ?_, ?_, ?_, ?_, .nil, rfl⟩
  · rw [empty]
    intro slot e
    rw [ite_self]
    cases slot <;> rfl
  · simp [empty]
  · simp [empty]
  · simp [empty]

theorem foldl_ordered (actions : List Action) (n : Numbered)
    (valid : ∀ action ∈ actions, action.Valid) (ordered : Ordered n) (inv : Invariant n.world) :
    Ordered (actions.foldl Numbered.step n) ∧ Invariant (actions.foldl Numbered.step n).world ∧
      (actions.foldl Numbered.step n).world = actions.foldl TimerWheel.step n.world := by
  induction actions generalizing n with
  | nil => exact ⟨ordered, inv, rfl⟩
  | cons action rest ih =>
    have first := valid action (by simp)
    exact ih (n.step action) (fun other member => valid other (by simp [member]))
      (ordered.step inv action first) (step_invariant n.world action first inv)

-- Two nodes of one expiry, in the order of their calls: both are in the wheel, or the first was
-- dispatched before the second.
def InOrder (n : Numbered) (a b : Nat) (e : UInt32) : Prop :=
  (n.Pending a e ∧ n.Pending b e) ∨ [a, b].Sublist n.dispatched

theorem Ordered.kept_or_taken {n : Numbered} (ordered : Ordered n) (inv : Invariant n.world)
    (action : Action) (e : UInt32) :
    pendingOf n.timer e <+: pendingOf (n.step action).timer e ∧
        n.dispatched <+: (n.step action).dispatched ∨
      (n.step action).dispatched =
        n.dispatched ++ (pendingOf n.timer e).map fun node => node.arg.1 := by
  have taken (world : World) : pendingOf n.timer e <+:
        pendingOf { n.take (nearIndex n.world.timer) with world := world }.timer e ∧
          n.dispatched <+: (n.take (nearIndex n.world.timer)).dispatched ∨
      (n.take (nearIndex n.world.timer)).dispatched =
        n.dispatched ++ (pendingOf n.timer e).map fun node => node.arg.1 := by
    have dispatched := ordered.take_dispatched
    by_cases now : e = n.world.timer.time
    · right
      rw [dispatched, now]
    · left
      rw [dispatched]
      refine ⟨?_, List.prefix_append _ _⟩
      change _ <+: pendingOf (n.take (nearIndex n.world.timer)).timer e
      rw [← ordered.take_holds.pending_eq]
      simp [now]
  cases action with
  | add event time =>
    left
    rw [← (ordered.add_holds event time).pending_eq]
    exact ⟨List.prefix_append _ _, List.prefix_rfl⟩
  | update =>
    simp only [Numbered.step]
    cases phase : n.world.phase with
    | idle => exact .inl ⟨List.prefix_rfl, List.prefix_rfl⟩
    | shifted => exact .inl ⟨List.prefix_rfl, List.prefix_rfl⟩
    | before idx =>
      have here := inv.index idx (.inl phase)
      subst here
      exact taken _
    | after idx =>
      have here := inv.index idx (.inr phase)
      subst here
      exact taken _
    | shift =>
      left
      refine ⟨?_, List.prefix_rfl⟩
      simp only
      rw [← (ordered.shift_holds inv phase).pending_eq]

theorem sublist_of_sorted {numbers : List Nat} (sorted : numbers.Pairwise (· < ·)) {a b : Nat}
    (first : a ∈ numbers) (second : b ∈ numbers) (earlier : a < b) : [a, b].Sublist numbers := by
  obtain ⟨before, after, rfl⟩ := List.append_of_mem first
  rw [List.pairwise_append, List.pairwise_cons] at sorted
  refine List.sublist_append_of_sublist_right (List.Sublist.cons_cons a ?_)
  rw [List.singleton_sublist]
  rcases List.mem_append.mp second with early | late
  · have := sorted.2.2 b early a (by simp)
    omega
  · rcases List.mem_cons.mp late with same | later
    · omega
    · exact later

theorem InOrder.step {n : Numbered} {a b : Nat} {e : UInt32} (inOrder : InOrder n a b e)
    (ordered : Ordered n) (inv : Invariant n.world) (earlier : a < b) (action : Action)
    (valid : action.Valid) : InOrder (n.step action) a b e := by
  have later := ordered.step inv action valid
  rcases ordered.kept_or_taken inv action e with ⟨kept, grown⟩ | taken
  · rcases inOrder with ⟨first, second⟩ | done
    · rw [ordered.pending_iff] at first second
      left
      rw [later.pending_iff, later.pending_iff]
      exact ⟨(kept.map _).subset first, (kept.map _).subset second⟩
    · exact .inr (done.trans grown.sublist)
  · right
    rw [taken]
    rcases inOrder with ⟨first, second⟩ | done
    · rw [ordered.pending_iff] at first second
      refine List.sublist_append_of_sublist_right (sublist_of_sorted ?_ first second earlier)
      rw [List.pairwise_map]
      exact ordered.sorted e
    · exact done.trans (List.sublist_append_left _ _)

theorem InOrder.foldl {a b : Nat} {e : UInt32} (earlier : a < b) (actions : List Action)
    (n : Numbered) (inOrder : InOrder n a b e) (ordered : Ordered n) (inv : Invariant n.world)
    (valid : ∀ action ∈ actions, action.Valid) :
    InOrder (actions.foldl Numbered.step n) a b e := by
  induction actions generalizing n with
  | nil => exact inOrder
  | cons action rest ih =>
    have now := valid action (by simp)
    exact ih (n.step action) (inOrder.step ordered inv earlier action now)
      (ordered.step inv action now) (step_invariant n.world action now inv)
      (fun other member => valid other (by simp [member]))

theorem Ordered.gone {n : Numbered} (ordered : Ordered n) {i : Nat} {e : UInt32}
    (dispatched : i ∈ n.dispatched) : ¬n.Pending i e := by
  rw [ordered.pending_iff, List.mem_map]
  rintro ⟨node, member, rfl⟩
  exact ordered.left e node member dispatched

structure Follows (n : Numbered) (w : World) : Prop where
  world : n.world = w
  timer : n.timer.map Prod.snd = w.timer
  once : n.dispatched.Nodup
  pushed : w.pushed.map (fun push => some (push.handle, push.message)) =
    n.dispatched.map fun i => w.added[i]?.map fun added => response added.event

theorem same_expiry_in_order (actions more : List Action)
    (valid : ∀ action ∈ actions ++ more, action.Valid) (a b : Nat) (e : UInt32) (earlier : a < b)
    (first : (run actions).Pending a e) (second : (run actions).Pending b e) :
    Follows (run (actions ++ more)) (TimerWheel.run (actions ++ more)) ∧
      (b ∈ (run (actions ++ more)).dispatched →
        [a, b].Sublist (run (actions ++ more)).dispatched) := by
  obtain ⟨ordered, inv, _⟩ := foldl_ordered actions init
    (fun action member => valid action (by simp [member])) init_ordered init_invariant
  have last := InOrder.foldl earlier more (run actions) (.inl ⟨first, second⟩) ordered inv
    fun action member => valid action (by simp [member])
  have whole : more.foldl Numbered.step (run actions) = run (actions ++ more) := by
    rw [run, run, List.foldl_append]
  rw [whole] at last
  obtain ⟨final, _, same⟩ := foldl_ordered (actions ++ more) init valid init_ordered init_invariant
  refine ⟨⟨same, ?_, final.once, ?_⟩, ?_⟩
  · exact final.erased.trans (congrArg World.timer same)
  · have pushed := final.pushed
    rw [same] at pushed
    exact pushed
  · intro dispatched
    rcases last with ⟨_, still⟩ | done
    · exact absurd still (final.gone dispatched)
    · exact done

def twoTimers : List Action :=
  .add ⟨0x1000005, 7⟩ 3 :: List.replicate 6 .update ++ [.add ⟨0x1000005, 8⟩ 2]

theorem two_timers_in_order :
    [0, 1].Sublist (run (twoTimers ++ List.replicate 12 .update)).dispatched := by
  have valid : ∀ action ∈ twoTimers ++ List.replicate 12 .update, action.Valid := by
    intro action member
    simp only [twoTimers, List.cons_append, List.append_assoc, List.mem_cons, List.mem_append,
      List.mem_replicate, List.nil_append] at member
    rcases member with rfl | ⟨_, rfl⟩ | rfl | ⟨_, rfl⟩
    · exact ⟨by decide, by decide⟩
    · trivial
    · exact ⟨by decide, by decide⟩
    · trivial
  exact (same_expiry_in_order twoTimers (List.replicate 12 .update) valid 0 1 3 (by decide)
    ⟨.near 3, ⟨3, 0, 0x1000005, 7⟩, by decide, rfl, rfl⟩
    ⟨.near 3, ⟨3, 1, 0x1000005, 8⟩, by decide, rfl, rfl⟩).2 (by decide)

end Numbered

end Pskynet.TimerWheel
