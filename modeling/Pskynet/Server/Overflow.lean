import Pskynet.Server.GlobalQueue

set_option autoImplicit false

namespace Pskynet.GlobalQueue

open Linked

variable {n : Nat}

theorem holds_setThread (s : Mgr n) (w : Fin n) (thread : Thread) :
    (s.setThread w thread).holds = Function.update s.holds w thread.holds := by
  funext w'
  by_cases same : w' = w
  · simp [same, Mgr.holds]
  · simp [same, Mgr.holds]

-- How often a queue is somewhere: in the bounded queue, in the overflow list `nodes`, or in the
-- local variables of a thread.
def Mgr.places (s : Mgr n) (nodes : List Nat) (queue : Nat) : Nat :=
  s.bounded.count queue + nodes.count queue + held s.holds queue

structure Kept (s : Mgr n) (nodes : List Nat) : Prop where
  chain : Chain s.next s.list nodes
  once : ∀ queue, s.places nodes queue = (s.inside queue).toNat

theorem Kept.le_one {s : Mgr n} {nodes : List Nat} (kept : Kept s nodes) (queue : Nat) :
    s.places nodes queue ≤ 1 := by
  rw [kept.once]
  exact Bool.toNat_le _

theorem Kept.outside {s : Mgr n} {nodes : List Nat} (kept : Kept s nodes) (w : Fin n) (queue : Nat)
    (mine : queue ∈ s.holds w) : queue ∉ nodes := by
  intro inside
  have few := kept.le_one queue
  have one := le_held s.holds w queue
  have here := List.count_pos_iff.mpr mine
  have there := List.count_pos_iff.mpr inside
  unfold Mgr.places at few
  omega

theorem Kept.move {s t : Mgr n} {nodes after : List Nat} (kept : Kept s nodes) (w : Fin n)
    (thread : Thread) (threads : t.thread = (s.setThread w thread).thread)
    (chain : Chain t.next t.list after)
    (balance : ∀ queue, t.bounded.count queue + after.count queue + thread.holds.count queue +
        (s.inside queue).toNat =
      s.bounded.count queue + nodes.count queue + (s.thread w).holds.count queue +
        (t.inside queue).toNat) : Kept t after := by
  refine ⟨chain, ?_⟩
  intro queue
  have before := kept.once queue
  have same : t.holds = Function.update s.holds w thread.holds := by
    rw [← holds_setThread]
    funext w'
    rw [Mgr.holds, threads]
    rfl
  have sum := held_update s.holds w thread.holds queue
  have moved := balance queue
  change _ + (s.thread w).holds.count queue = _ at sum
  unfold Mgr.places at before ⊢
  rw [same]
  omega

-- A `Pop` that swings the head of the list still knows its second node.
def Current (s : Mgr n) : Action n → Prop
  | .advance w =>
      match s.thread w with
      | .peeked _ l newhead => s.list = some l → newhead = s.next l
      | _ => True
  | _ => True

theorem step_kept {s t : Mgr n} (action : Action n) {nodes : List Nat} (kept : Kept s nodes)
    (current : Current s action) (stepped : step s action = some t) : ∃ nodes, Kept t nodes := by
  have chain := kept.chain
  cases step_taken s t action stepped with
  | push w queue free out =>
    refine ⟨nodes, kept.move w (.pushing queue none) rfl chain ?_⟩
    intro other
    by_cases same : other = queue
    · simp [same, free, out, Thread.holds, Mgr.setThread]
    · simp [same, Ne.symm same, free, Thread.holds, Mgr.setThread]
  | pop w free =>
    refine ⟨nodes, kept.move w .popping rfl chain ?_⟩
    intro other
    simp [free, Thread.holds, Mgr.setThread]
  | stored w queue ret here room =>
    refine ⟨nodes, kept.move w (pushed ret) rfl chain ?_⟩
    intro other
    cases ret <;> simp [here, Thread.holds, Mgr.setThread, pushed, List.count_cons] <;> omega
  | full w queue ret here =>
    refine ⟨nodes, kept.move w (.parking queue ret) rfl chain ?_⟩
    intro other
    simp [here, Thread.holds, Mgr.setThread]
  | parked w queue ret here same =>
    refine ⟨queue :: nodes, kept.move w (pushed ret) rfl (.cons ?_) ?_⟩
    · change Chain s.next (s.next queue) nodes
      rw [← same]
      exact chain
    · intro other
      cases ret <;> simp [here, Thread.holds, Mgr.setThread, pushed, List.count_cons] <;> omega
  | missed w queue ret here =>
    refine ⟨nodes, kept.move w (.missed queue s.list ret) rfl chain ?_⟩
    intro other
    simp [here, Thread.holds, Mgr.setThread]
  | noted w queue seen ret here =>
    have mine : queue ∈ s.holds w := by simp [Mgr.holds, here, Thread.holds]
    refine ⟨nodes, kept.move w (.parking queue ret) rfl
      (chain.update queue seen (kept.outside w queue mine)) ?_⟩
    intro other
    simp [here, Thread.holds, Mgr.setThread]
  | drained w here =>
    refine ⟨nodes, kept.move w .idle rfl chain ?_⟩
    intro other
    simp [here, Thread.holds, Mgr.setThread]
  | popped w ret rest here front =>
    refine ⟨nodes, kept.move w (.popped ret) rfl chain ?_⟩
    intro other
    simp [here, front, Thread.holds, Mgr.setThread, List.count_cons]
    omega
  | bare w ret here =>
    refine ⟨nodes, kept.move w (.returning ret) rfl chain ?_⟩
    intro other
    simp [here, Thread.holds, Mgr.setThread]
  | loaded w ret l here =>
    refine ⟨nodes, kept.move w (.loaded ret l) rfl chain ?_⟩
    intro other
    simp [here, Thread.holds, Mgr.setThread]
  | peeked w ret l here =>
    refine ⟨nodes, kept.move w (.peeked ret l (s.next l)) rfl chain ?_⟩
    intro other
    simp [here, Thread.holds, Mgr.setThread]
  | unlinked w ret l newhead here same =>
    rw [same] at chain
    cases chain with
    | @cons _ rest tail =>
      refine ⟨rest, kept.move w (.unlinked ret l) rfl ?_ ?_⟩
      · simp only [Current, here] at current
        change Chain s.next newhead rest
        rw [current same]
        exact tail
      · intro other
        simp [here, Thread.holds, Mgr.setThread, List.count_cons]
        omega
  | beaten w ret l newhead here =>
    refine ⟨nodes, kept.move w (.returning ret) rfl chain ?_⟩
    intro other
    simp [here, Thread.holds, Mgr.setThread]
  | cleared w ret l here =>
    have mine : l ∈ s.holds w := by simp [Mgr.holds, here, Thread.holds]
    refine ⟨nodes, kept.move w (.pushing l (some ret)) rfl
      (chain.update l none (kept.outside w l mine)) ?_⟩
    intro other
    simp [here, Thread.holds, Mgr.setThread]
  | returned w ret here =>
    refine ⟨nodes, kept.move w .idle rfl chain ?_⟩
    intro other
    have held : s.inside ret := by
      have mine := le_held s.holds w ret
      have once := kept.once ret
      have one : 1 ≤ (s.holds w).count ret := by simp [Mgr.holds, here, Thread.holds]
      unfold Mgr.places at once
      cases inside : s.inside ret
      · rw [inside, Bool.toNat_false] at once
        omega
      · rfl
    by_cases same : other = ret
    · simp [same, here, held, Thread.holds, Mgr.setThread]
    · simp [same, Ne.symm same, here, Thread.holds, Mgr.setThread]

def InOnePlace (s : Mgr n) : Prop :=
  ∃ nodes, Chain s.next s.list nodes ∧ nodes.Nodup ∧
    ∀ queue, s.inside queue → s.places nodes queue = 1

theorem Kept.inOnePlace {s : Mgr n} {nodes : List Nat} (kept : Kept s nodes) : InOnePlace s := by
  refine ⟨nodes, kept.chain, ?_, ?_⟩
  · rw [List.nodup_iff_count_le_one]
    intro queue
    have few := kept.le_one queue
    unfold Mgr.places at few
    omega
  · intro queue inside
    rw [kept.once, inside, Bool.toNat_true]

theorem queues_in_one_place (capacity : Nat) (s : Mgr n)
    (reached : Transition.Path step Current (Mgr.init capacity) s) : InOnePlace s := by
  have kept : ∃ nodes, Kept s nodes := by
    refine reached.invariant (fun s => ∃ nodes, Kept s nodes) ?_ ⟨[], .nil, ?_⟩
    · rintro s action t ⟨nodes, kept⟩ current stepped
      exact step_kept action kept current stepped
    · intro queue
      simp [Mgr.places, Mgr.init, held, Mgr.holds, Thread.holds]
  obtain ⟨nodes, kept⟩ := kept
  exact kept.inOnePlace

def advances (w : Fin n) (count : Nat) : List (Action n) := List.replicate count (.advance w)

def parkTwo : List (Action 2) :=
  [.push 1 2] ++ advances 1 1 ++ [.push 1 1] ++ advances 1 2 ++ [.push 1 0] ++ advances 1 4

theorem parked_queue_moved_back :
    ∃ s, Transition.run step (Mgr.init 1) (parkTwo ++ [.pop 0] ++ advances 0 7) = some s ∧
      s.bounded = [0] ∧ s.list = some 1 ∧ InOnePlace s := by
  refine ⟨_, rfl, rfl, rfl, ?_⟩
  refine queues_in_one_place 1 _ ?_
  refine Transition.Path.of_run (parkTwo ++ [.pop 0] ++ advances 0 7) (.refl _) ?_ rfl
  repeat' first | exact trivial | exact fun _ => rfl | apply And.intro

-- Thread 0 has read the head 0 and its next node 1; then both are moved back and taken, and 0
-- is parked again.
def headReused : List (Action 2) :=
  parkTwo ++ [.pop 0] ++ advances 0 3 ++ [.push 1 3] ++ advances 1 1 ++ [.pop 1] ++ advances 1 7 ++
    [.pop 1] ++ advances 1 7 ++ [.push 1 0] ++ advances 1 2

theorem reused_head_duplicates :
    ∃ s t, Transition.run step (Mgr.init 1) headReused = some s ∧ s.list = some 0 ∧
      s.next 0 = none ∧ step s (.advance 0) = some t ∧ t.list = some 1 ∧ t.bounded = [1] ∧
      ¬InOnePlace t := by
  refine ⟨_, _, rfl, rfl, rfl, rfl, rfl, rfl, ?_⟩
  rintro ⟨nodes, chain, _, once⟩
  have same : nodes = [1] := chain.unique (.cons .nil)
  have two := once 1 rfl
  rw [same] at two
  contradiction

end Pskynet.GlobalQueue
