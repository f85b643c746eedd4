import Pskynet.Server.Overflow

set_option autoImplicit false

namespace Pskynet.GlobalQueue

variable {n : Nat}

-- A thread that is on its way to the overflow list or to the bounded queue with a queue in hand.
def Thread.comes : Thread → Prop
  | .popped _ | .unlinked _ _ | .pushing _ _ => True
  | _ => False

def Thread.attends (list : Option Nat) : Thread → Prop
  | .popped _ | .unlinked _ _ | .pushing _ _ => True
  | .loaded _ l | .peeked _ l _ => list = some l
  | _ => False

theorem Thread.comes_attends (thread : Thread) (list : Option Nat) (comes : thread.comes) :
    thread.attends list := by
  cases thread <;> first | exact comes | contradiction

structure Attended (s : Mgr n) : Prop where
  positive : 0 < s.capacity
  room : s.bounded.length ≤ s.capacity
  seen : s.list ≠ none → s.bounded = [] → ∃ w, (s.thread w).attends s.list

-- A queue is parked only while the bounded queue has something in it, or while some thread is
-- still to come by.
def Timely (s : Mgr n) : Action n → Prop
  | .advance w =>
      match s.thread w with
      | .parking queue _ => s.list = s.next queue → s.bounded ≠ [] ∨ ∃ other, (s.thread other).comes
      | _ => True
  | _ => True

theorem init_attended (capacity : Nat) (positive : 0 < capacity) :
    Attended (Mgr.init capacity : Mgr n) :=
  ⟨positive, Nat.zero_le _, fun some_ => absurd rfl some_⟩

theorem attends_self {s : Mgr n} (w : Fin n) (thread : Thread) (list : Option Nat)
    (attends : thread.attends list) : ∃ w', ((s.setThread w thread).thread w').attends list := by
  refine ⟨w, ?_⟩
  rw [setThread_self]
  exact attends

theorem attends_other {s : Mgr n} (w other : Fin n) (thread : Thread) (list : Option Nat)
    (different : other ≠ w) (attends : (s.thread other).attends list) :
    ∃ w', ((s.setThread w thread).thread w').attends list := by
  refine ⟨other, ?_⟩
  rw [setThread_other s w other thread different]
  exact attends

theorem Attended.pass {s : Mgr n} (attended : Attended s) (w : Fin n) (thread : Thread)
    (idle : ¬(s.thread w).attends s.list ∨ thread.attends s.list) (some_ : s.list ≠ none)
    (empty : s.bounded = []) : ∃ w', ((s.setThread w thread).thread w').attends s.list := by
  obtain ⟨other, attends⟩ := attended.seen some_ empty
  by_cases same : other = w
  · rw [same] at attends
    exact attends_self w thread s.list (idle.resolve_left (not_not.mpr attends))
  · exact attends_other w other thread s.list same attends

theorem step_attended {s t : Mgr n} (action : Action n) (attended : Attended s)
    (timely : Timely s action) (stepped : step s action = some t) : Attended t := by
  obtain ⟨positive, room, seen⟩ := id attended
  cases step_taken s t action stepped with
  | push w queue free =>
    exact ⟨positive, room, fun _ _ => attends_self w _ _ trivial⟩
  | pop w free =>
    exact ⟨positive, room, attended.pass w _ (.inl (by simp [free, Thread.attends]))⟩
  | stored w queue ret here space =>
    refine ⟨positive, ?_, ?_⟩
    · change (s.bounded ++ [queue]).length ≤ s.capacity
      rw [List.length_append]
      exact space
    · intro _ empty
      have stored : s.bounded ++ [queue] = [] := empty
      simp at stored
  | full w queue ret here full =>
    refine ⟨positive, room, ?_⟩
    intro _ empty
    have none : s.bounded = [] := empty
    rw [none] at full
    exact absurd positive full
  | parked w queue ret here same =>
    refine ⟨positive, room, ?_⟩
    intro _ empty
    simp only [Timely, here] at timely
    obtain ⟨other, comes⟩ := (timely same).resolve_left (not_not.mpr empty)
    refine attends_other w other _ _ ?_ ((s.thread other).comes_attends _ comes)
    rintro rfl
    rw [here] at comes
    exact comes
  | missed w queue ret here =>
    exact ⟨positive, room, attended.pass w _ (.inl (by simp [here, Thread.attends]))⟩
  | noted w queue seen ret here =>
    exact ⟨positive, room, attended.pass w _ (.inl (by simp [here, Thread.attends]))⟩
  | drained w here =>
    exact ⟨positive, room, attended.pass w _ (.inl (by simp [here, Thread.attends]))⟩
  | popped w ret rest here front =>
    refine ⟨positive, ?_, fun _ _ => attends_self w _ _ trivial⟩
    rw [front, List.length_cons] at room
    exact Nat.le_of_succ_le room
  | bare w ret here empty =>
    exact ⟨positive, room, fun some_ => absurd empty some_⟩
  | loaded w ret l here front =>
    exact ⟨positive, room, fun _ _ => attends_self w _ _ front⟩
  | peeked w ret l here =>
    refine ⟨positive, room, attended.pass w _ ?_⟩
    by_cases same : s.list = some l
    · exact .inr same
    · exact .inl (by simpa [here, Thread.attends] using same)
  | unlinked w ret l newhead here same =>
    exact ⟨positive, room, fun _ _ => attends_self w _ _ trivial⟩
  | beaten w ret l newhead here other =>
    exact ⟨positive, room, attended.pass w _ (.inl (by simpa [here, Thread.attends] using other))⟩
  | cleared w ret l here =>
    exact ⟨positive, room, fun _ _ => attends_self w _ _ trivial⟩
  | returned w ret here =>
    exact ⟨positive, room, attended.pass w _ (.inl (by simp [here, Thread.attends]))⟩

theorem pop_moves_back (s : Mgr n) (w : Fin n) (free : s.thread w = .idle) (ret l : Nat)
    (rest : List Nat) (front : s.bounded = ret :: rest) (head : s.list = some l)
    (room : rest.length < s.capacity) :
    ∃ t, Transition.run step s (.pop w :: advances w 7) = some t ∧ t.bounded = rest ++ [l] ∧
      t.list = s.next l ∧ t.inside = Function.update s.inside ret false ∧ t.thread w = .idle := by
  refine ⟨
    { s with
      bounded := rest ++ [l]
      list := s.next l
      next := Function.update s.next l none
      thread := Function.update s.thread w .idle
      inside := Function.update s.inside ret false }, ?_, rfl, rfl, rfl, Function.update_self ..⟩
  simp only [advances, List.replicate, Transition.run, step, free, if_true, Mgr.advance,
    Mgr.setThread, Function.update_self, Function.update_idem, front, head, room, pushed]

def Mgr.Quiet (s : Mgr n) : Prop := ∀ w, s.thread w = .idle

-- The next `Pop` returns a queue and moves a node of the overflow list back.
def MovesBack (s : Mgr n) : Prop :=
  ∀ w, ∃ ret l rest t, s.bounded = ret :: rest ∧ s.list = some l ∧
    Transition.run step s (.pop w :: advances w 7) = some t ∧ t.bounded = rest ++ [l] ∧
    t.list = s.next l ∧ t.inside = Function.update s.inside ret false ∧ t.thread w = .idle

theorem overflow_never_stranded (capacity : Nat) (positive : 0 < capacity) (s : Mgr n)
    (reached : Transition.Path step Timely (Mgr.init capacity) s) (quiet : s.Quiet)
    (nonempty : s.list ≠ none) : s.bounded ≠ [] ∧ MovesBack s := by
  have attended := reached.invariant Attended
    (fun _ action _ attended timely stepped => step_attended action attended timely stepped)
    (init_attended capacity positive)
  have filled : s.bounded ≠ [] := by
    intro empty
    obtain ⟨w, attends⟩ := attended.seen nonempty empty
    rw [quiet w] at attends
    exact attends
  refine ⟨filled, ?_⟩
  intro w
  obtain ⟨ret, rest, front⟩ := List.exists_cons_of_ne_nil filled
  obtain ⟨l, head⟩ := Option.ne_none_iff_exists'.mp nonempty
  have room := attended.room
  rw [front, List.length_cons] at room
  obtain ⟨t, ran, moved⟩ := pop_moves_back s w (quiet w) ret l rest front head room
  exact ⟨ret, l, rest, t, front, head, ran, moved⟩

theorem parked_queues_attended :
    ∃ s, Transition.run step (Mgr.init 1) parkTwo = some s ∧ s.bounded = [2] ∧
      s.list = some 0 ∧ s.bounded ≠ [] ∧ MovesBack s := by
  refine ⟨_, rfl, rfl, rfl, ?_⟩
  refine overflow_never_stranded 1 (by decide) _ ?_ ?_ (by simp)
  · refine Transition.Path.of_run parkTwo (.refl _) ?_ rfl
    repeat' first | exact trivial | exact fun _ => .inl (List.cons_ne_nil _ _) | apply And.intro
  · intro w
    fin_cases w <;> rfl

-- Thread 0 finds the bounded queue full; thread 1 empties it; then thread 0 parks its queue.
def lateParking : List (Action 2) :=
  [.push 0 2] ++ advances 0 1 ++ [.push 0 1] ++ advances 0 1 ++ [.pop 1] ++ advances 1 3 ++
    advances 0 1

theorem late_parking_stranded :
    ∃ s t, Transition.run step (Mgr.init 1) lateParking = some s ∧ s.Quiet ∧ s.list = some 1 ∧
      s.bounded = [] ∧ s.inside 1 ∧
      Transition.run step s [.pop 1, .advance 1] = some t ∧ t.Quiet ∧ t.list = some 1 ∧
      t.inside = s.inside := by
  refine ⟨_, _, rfl, ?_, rfl, rfl, rfl, rfl, ?_, rfl, rfl⟩
  · intro w
    fin_cases w <;> rfl
  · intro w
    fin_cases w <;> rfl

end Pskynet.GlobalQueue
