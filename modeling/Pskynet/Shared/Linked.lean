import Mathlib.Algebra.BigOperators.Fin
import Mathlib.Data.List.Count
import Mathlib.Tactic

set_option autoImplicit false

namespace Linked

variable {Node : Type}

-- A list in memory: from `head` along `next` to the end.
inductive Chain (next : Node → Option Node) : Option Node → List Node → Prop where
  | nil : Chain next none []
  | cons {node : Node} {rest : List Node} (tail : Chain next (next node) rest) :
      Chain next (some node) (node :: rest)

theorem Chain.unique {next : Node → Option Node} {head : Option Node} {one two : List Node}
    (first : Chain next head one) (second : Chain next head two) : one = two := by
  induction first generalizing two with
  | nil =>
    cases second
    rfl
  | cons _ ih =>
    cases second with
    | cons tail => rw [ih tail]

theorem Chain.congr {next other : Node → Option Node} {head : Option Node} {nodes : List Node}
    (chain : Chain next head nodes) (same : ∀ node ∈ nodes, other node = next node) :
    Chain other head nodes := by
  induction chain with
  | nil => exact .nil
  | @cons first rest _ ih =>
    refine .cons ?_
    rw [same first List.mem_cons_self]
    exact ih fun node inside => same node (List.mem_cons_of_mem _ inside)

theorem Chain.update [DecidableEq Node] {next : Node → Option Node} {head : Option Node}
    {nodes : List Node} (chain : Chain next head nodes) (node : Node) (value : Option Node)
    (outside : node ∉ nodes) : Chain (Function.update next node value) head nodes := by
  apply chain.congr
  intro other inside
  apply Function.update_of_ne
  rintro rfl
  exact outside inside

theorem Chain.suffix {next : Node → Option Node} {head : Option Node} {nodes : List Node}
    (chain : Chain next head nodes) {node : Node} (inside : node ∈ nodes) :
    ∃ before after, nodes = before ++ node :: after ∧ Chain next (some node) (node :: after) := by
  induction chain with
  | nil => contradiction
  | @cons first rest tail ih =>
    rcases List.mem_cons.mp inside with rfl | later
    · exact ⟨[], rest, rfl, .cons tail⟩
    · obtain ⟨before, after, rfl, found⟩ := ih later
      exact ⟨first :: before, after, rfl, found⟩

theorem Chain.nodup {next : Node → Option Node} {head : Option Node} {nodes : List Node}
    (chain : Chain next head nodes) : nodes.Nodup := by
  induction chain with
  | nil => exact List.nodup_nil
  | @cons first rest tail ih =>
    refine List.nodup_cons.mpr ⟨fun inside => ?_, ih⟩
    obtain ⟨before, after, parts, found⟩ := tail.suffix inside
    have same := congrArg List.length ((Chain.cons tail).unique found)
    rw [parts] at same
    simp only [List.length_cons, List.length_append] at same
    omega

-- The nodes found from `head` along `next`.
inductive Reaches (next : Node → Option Node) (head : Option Node) : Node → Prop where
  | head {node : Node} (first : head = some node) : Reaches next head node
  | next {node later : Node} (before : Reaches next head node) (link : next node = some later) :
      Reaches next head later

theorem Chain.mem_iff {next : Node → Option Node} {head : Option Node} {nodes : List Node}
    (chain : Chain next head nodes) (node : Node) : node ∈ nodes ↔ Reaches next head node := by
  constructor
  · intro inside
    induction chain with
    | nil => contradiction
    | @cons first rest tail ih =>
      rcases List.mem_cons.mp inside with rfl | later
      · exact .head rfl
      · -- What is reached from the second node is reached from the first.
        have reached := ih later
        clear ih later inside tail
        induction reached with
        | head link => exact .next (.head rfl) link
        | next _ link ih => exact .next ih link
  · intro reached
    induction reached with
    | head first =>
      subst first
      cases chain
      exact List.mem_cons_self
    | @next middle last before link ih =>
      obtain ⟨front, after, rfl, found⟩ := chain.suffix ih
      cases found with
      | cons tail =>
        rw [link] at tail
        cases tail
        simp

theorem Chain.append [DecidableEq Node] {next : Node → Option Node} {head : Option Node}
    {nodes : List Node} {last node : Node} (chain : Chain next head nodes)
    (final : nodes.getLast? = some last) (outside : node ∉ nodes) (alone : next node = none) :
    Chain (Function.update next last (some node)) head (nodes ++ [node]) := by
  have once := chain.nodup
  induction chain with
  | nil => contradiction
  | @cons first rest tail ih =>
    obtain ⟨fresh, once⟩ := List.nodup_cons.mp once
    rw [List.mem_cons, not_or] at outside
    refine .cons ?_
    cases rest with
    | nil =>
      obtain rfl : first = last := by simpa using final
      rw [Function.update_self]
      refine .cons ?_
      rw [Function.update_of_ne outside.1, alone]
      exact .nil
    | cons second rest =>
      have final' : (second :: rest).getLast? = some last := by simpa using final
      have apart : first ≠ last := fun same =>
        fresh (same ▸ List.mem_of_getLast? final')
      rw [Function.update_of_ne apart]
      exact ih final' outside.2 once

theorem Chain.link {next : Node → Option Node} {head : Option Node} (before : List Node)
    {node later : Node} {after : List Node}
    (chain : Chain next head (before ++ node :: later :: after)) : next node = some later := by
  induction before generalizing head with
  | nil =>
    cases chain with
    | cons tail =>
      generalize next node = second at tail
      cases tail
      rfl
  | cons first before ih =>
    cases chain with
    | cons tail => exact ih tail

theorem Chain.unlink [DecidableEq Node] {next : Node → Option Node} {head : Option Node}
    (before : List Node) {node gone : Node} {after : List Node}
    (chain : Chain next head (before ++ node :: gone :: after)) :
    Chain (Function.update next node (next gone)) head (before ++ node :: after) := by
  have once := chain.nodup
  induction before generalizing head with
  | nil =>
    cases chain with
    | cons tail =>
      generalize link : next node = second at tail
      cases tail with
      | cons rest =>
        refine .cons ?_
        rw [Function.update_self]
        refine rest.update node _ fun inside => ?_
        exact (List.nodup_cons.mp once).1 (List.mem_cons_of_mem _ inside)
  | cons first before ih =>
    cases chain with
    | cons tail =>
      obtain ⟨fresh, once⟩ := List.nodup_cons.mp once
      refine .cons ?_
      rw [Function.update_of_ne fun same => fresh (by simp [same])]
      exact ih tail once

def held {Thread : Type} [Fintype Thread] [DecidableEq Node] (holds : Thread → List Node)
    (node : Node) : Nat := ∑ thread, (holds thread).count node

theorem held_update {Thread : Type} [Fintype Thread] [DecidableEq Thread] [DecidableEq Node]
    (holds : Thread → List Node) (thread : Thread) (nodes : List Node) (node : Node) :
    held (Function.update holds thread nodes) node + (holds thread).count node =
      held holds node + nodes.count node := by
  have split (f : Thread → List Node) : held f node =
      (f thread).count node + ∑ other ∈ Finset.univ.erase thread, (f other).count node :=
    (Finset.add_sum_erase _ _ (Finset.mem_univ thread)).symm
  have others : ∑ other ∈ Finset.univ.erase thread,
      (Function.update holds thread nodes other).count node =
        ∑ other ∈ Finset.univ.erase thread, (holds other).count node := by
    refine Finset.sum_congr rfl ?_
    intro other inside
    rw [Function.update_of_ne (Finset.ne_of_mem_erase inside)]
  rw [split, split holds, others, Function.update_self]
  omega

theorem le_held {Thread : Type} [Fintype Thread] [DecidableEq Node] (holds : Thread → List Node)
    (thread : Thread) (node : Node) : (holds thread).count node ≤ held holds node :=
  Finset.single_le_sum (f := fun thread => (holds thread).count node) (fun _ _ => Nat.zero_le _)
    (Finset.mem_univ thread)

end Linked
