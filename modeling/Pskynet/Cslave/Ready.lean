import Mathlib.Algebra.BigOperators.Group.Finset.Basic
import Pskynet.Cslave.Linked

set_option autoImplicit false

namespace Pskynet.Cslave

variable {m next : Mesh}

theorem reached_sound {actions : List Action} (reached : Transition.run step .start actions = some m) :
    Sound m :=
  Transition.run_invariant step Sound (fun _ _ _ sound taken => sound.step taken) actions _ _
    start_sound reached

theorem linked_once {actions : List Action} (reached : Transition.run step .start actions = some m)
    (a b : Nat) :
    m.flights.count (a, b) + m.flights.count (b, a) + m.refused.count (a, b) +
        m.refused.count (b, a) + (if m.Before a b ∧ a ∈ (m.slaves b).slaves then 1 else 0) +
        (if m.Before b a ∧ b ∈ (m.slaves a).slaves then 1 else 0) ≤ 1 ∧
      (0 < m.flights.count (a, b) + m.refused.count (a, b) → m.Before a b) ∧
      ∀ coroutine, (m.slaves a).opening coroutine = some b → (m.slaves b).slaveFd ≠ .closed := by
  have sound := reached_sound reached
  refine ⟨?_, ?_, ?_⟩
  · by_cases early : m.Before a b
    · have one := sound.once a b early
      have none_ := sound.never b a early.not_after
      have late : ¬(m.Before b a ∧ b ∈ (m.slaves a).slaves) := fun is => early.not_after is.1
      simp only [early, true_and, if_neg late]
      omega
    · have none_ := sound.never a b early
      have no : ¬(m.Before a b ∧ a ∈ (m.slaves b).slaves) := fun is => early is.1
      by_cases late : m.Before b a
      · have one := sound.once b a late
        simp only [late, true_and, if_neg no]
        omega
      · have none_' := sound.never b a late
        have no' : ¬(m.Before b a ∧ b ∈ (m.slaves a).slaves) := fun is => late is.1
        simp only [if_neg no, if_neg no']
        omega
  · intro some_
    by_contra other
    have := sound.never a b other
    omega
  · intro coroutine opening closed
    obtain ⟨-, pending⟩ := sound.of_opening opening
    obtain ⟨before, -, -, -, absent⟩ := sound.of_pending (a := a) (b := b) (by omega)
    exact absent ((sound.placed b).closed closed a before)

def Settled (m : Mesh) : Prop := ∀ action, step m action ≠ none → ∃ id, action = .handshake id

def Complete (m : Mesh) : Prop :=
  ∀ b ∈ m.slaveNode, (m.slaves b).connectQueue = none ∧
    ∀ a ∈ m.slaveNode, a ≠ b → a ∈ (m.slaves b).slaves

section

variable (settled : Settled m)

include settled

theorem Settled.idle (id : Nat) : (∀ coroutine, (m.slaves id).opening coroutine = none) ∧
    m.notices id = [] ∧ (m.slaves id).toConnect = ∅ := by
  have free : ∀ coroutine, (m.slaves id).opening coroutine = none := by
    intro coroutine
    by_contra busy
    obtain ⟨other, opening⟩ := Option.ne_none_iff_exists'.mp busy
    obtain ⟨_, same⟩ := settled (.opened id coroutine) (by simp [step, opening])
    cases same
  refine ⟨free, ?_, ?_⟩
  · cases notices : m.notices id with
    | nil => rfl
    | cons notice rest =>
      obtain ⟨_, same⟩ := settled (.monitorMaster id) (by simp [step, free, notices])
      cases same
  · by_contra left
    obtain ⟨other, inside⟩ := Finset.nonempty_iff_ne_empty.mpr left
    obtain ⟨_, same⟩ := settled (.connect id other) (by simp [step, free, inside])
    cases same

theorem Settled.unstarted (id : Nat) : (m.slaves id).slaveFd ≠ .started := by
  intro started
  obtain ⟨_, same⟩ := settled (.listen id) (by simp [step, started])
  cases same

theorem Settled.woken (sound : Sound m) {id : Nat} (woken : (m.slaves id).Woken) :
    (m.slaves id).connectQueue = none := by
  have closed : (m.slaves id).slaveFd = .closed := by
    cases slaveFd : (m.slaves id).slaveFd with
    | bound =>
      obtain ⟨n, expected, -⟩ := woken
      have read : (m.slaves id).expected ≠ none := Option.ne_none_iff_exists'.mpr ⟨n, expected⟩
      exact absurd slaveFd ((sound.placed id).asked read)
    | started => exact absurd slaveFd (settled.unstarted id)
    | listening =>
      obtain ⟨_, same⟩ := settled (.close id) (by simp [step, slaveFd, woken])
      cases same
    | closed => rfl
  cases queued : (m.slaves id).connectQueue with
  | none => rfl
  | some queue =>
    obtain ⟨_, same⟩ := settled (.ready id) (by simp [step, closed, woken, queued])
    cases same

theorem Settled.landed {a b : Nat} (flight : (a, b) ∈ m.flights) :
    (m.slaves b).slaveFd ≠ .listening := by
  intro listening
  obtain ⟨_, same⟩ := settled (.accept a b) (by simp [step, flight, listening])
  cases same

theorem Settled.accepted (sound : Sound m) (unrefused : m.refused = []) {a b : Nat}
    (before : m.Before a b) (ready : (m.slaves a).connectQueue = none) :
    a ∈ (m.slaves b).slaves := by
  obtain ⟨free, notices, left⟩ := settled.idle a
  have one := sound.once a b before
  have done : m.pending a b = 0 := by
    simp [Mesh.pending, Slave.holding, free, notices, left, ready]
  rw [done, unrefused] at one
  by_contra absent
  rw [if_neg absent, List.count_nil] at one
  have flight : (a, b) ∈ m.flights := List.count_pos_iff.mp (by omega)
  have read : (m.slaves b).expected ≠ none := by
    rcases (sound.placed b).waits before.2.1 with ⟨-, later, same, -⟩ | ⟨read, -⟩
    · cases (settled.idle b).2.1.symm.trans same
    · rw [read]
      exact Option.some_ne_none _
  have closed : (m.slaves b).slaveFd = .closed := by
    cases slaveFd : (m.slaves b).slaveFd with
    | bound => exact absurd slaveFd ((sound.placed b).asked read)
    | started => exact absurd slaveFd (settled.unstarted b)
    | listening => exact absurd slaveFd (settled.landed flight)
    | closed => rfl
  exact absent ((sound.placed b).closed closed a before)

theorem Settled.ready (sound : Sound m) (unrefused : m.refused = []) (b : Nat)
    (inside : b ∈ m.slaveNode) : (m.slaves b).connectQueue = none := by
  induction rank : m.rank b using Nat.strong_induction_on generalizing b with
  | _ n ih =>
    subst rank
    have expected : (m.slaves b).expected = some (m.rank b) := by
      rcases (sound.placed b).waits inside with ⟨-, later, same, -⟩ | ⟨read, -⟩
      · cases (settled.idle b).2.1.symm.trans same
      · exact read
    refine settled.woken sound ⟨m.rank b, expected, ?_⟩
    have among : (m.slaveNode.take (m.rank b)).toFinset ⊆ (m.slaves b).slaves := by
      intro a early
      have before := (earlier_iff a b inside).mp (List.mem_toFinset.mp early)
      exact settled.accepted sound unrefused before (ih _ before.2.2 a before.1 rfl)
    have card : ((m.slaveNode.take (m.rank b)).toFinset).card = m.rank b := by
      rw [List.toFinset_card_of_nodup (sound.nodup.sublist (List.take_sublist _ _)), List.length_take]
      have := List.idxOf_lt_length_of_mem inside
      simp only [Mesh.rank]
      omega
    rw [← card]
    exact Finset.card_le_card among

end

theorem Sound.ordered {a b : Nat} (inside : a ∈ m.slaveNode) (inside' : b ∈ m.slaveNode)
    (other : a ≠ b) : m.Before a b ∨ m.Before b a := by
  rcases Nat.lt_trichotomy (m.rank a) (m.rank b) with less | same | less
  · exact .inl ⟨inside, inside', less⟩
  · exact absurd ((List.idxOf_inj inside).mp same) other
  · exact .inr ⟨inside', inside, less⟩

theorem settled_complete_iff (sound : Sound m) (settled : Settled m) :
    Complete m ↔ m.refused = [] := by
  constructor
  · intro complete
    by_contra some_
    obtain ⟨⟨a, b⟩, inside⟩ := List.exists_mem_of_ne_nil _ some_
    have positive := List.count_pos_iff.mpr inside
    have before : m.Before a b := by
      by_contra other
      have := sound.never a b other
      omega
    have one := sound.once a b before
    rw [if_pos ((complete b before.2.1).2 a before.1 before.ne.symm)] at one
    omega
  · intro unrefused b inside
    refine ⟨settled.ready sound unrefused b inside, fun a inside' other => ?_⟩
    rcases Sound.ordered inside' inside other with before | after
    · exact settled.accepted sound unrefused before (settled.ready sound unrefused a inside')
    · refine (sound.opens b a after).mpr (.inr ?_)
      exact settled.accepted sound unrefused after (settled.ready sound unrefused b inside)

def Listener.weight : Listener → Nat
  | .started => 2
  | .listening => 1
  | .bound | .closed => 0

def Slave.weight (s : Slave) : Nat :=
  s.slaveFd.weight + (s.connectQueue.elim 0 fun queue => 5 * queue.card + 1) +
    4 * s.toConnect.card +
      ((if s.opening false = none then 0 else 3) + (if s.opening true = none then 0 else 3))

def Mesh.load (m : Mesh) (id : Nat) : Nat := 6 * (m.notices id).length + (m.slaves id).weight

def Mesh.weight (m : Mesh) : Nat := ∑ id ∈ m.slaveNode.toFinset, m.load id + 2 * m.flights.length

theorem weight_change {id : Nat} (inside : id ∈ m.slaveNode) (nodes : next.slaveNode = m.slaveNode)
    (others : ∀ b, b ≠ id → next.load b = m.load b) :
    next.weight + m.load id + 2 * m.flights.length =
      m.weight + next.load id + 2 * next.flights.length := by
  have member := List.mem_toFinset.mpr inside
  have before := Finset.add_sum_erase m.slaveNode.toFinset m.load member
  have after := Finset.add_sum_erase m.slaveNode.toFinset next.load member
  have rest : ∑ b ∈ m.slaveNode.toFinset.erase id, next.load b =
      ∑ b ∈ m.slaveNode.toFinset.erase id, m.load b := by
    refine Finset.sum_congr rfl fun b there => ?_
    exact others b (Finset.ne_of_mem_erase there)
  unfold Mesh.weight
  rw [nodes]
  omega

theorem Slave.weight_connectSlave {s : Slave} {coroutine : Bool} (other : Nat)
    (free : s.opening coroutine = none) : (s.connectSlave coroutine other).weight ≤ s.weight + 3 := by
  unfold Slave.connectSlave
  split_ifs with inside
  · omega
  · cases coroutine
    · simp [Slave.weight, free]
      omega
    · simp [Slave.weight, free]
      omega

theorem Slave.weight_connect {s : Slave} {other : Nat} (left : other ∈ s.toConnect)
    (free : s.opening true = none) :
    ({ s with toConnect := s.toConnect.erase other }.connectSlave true other).weight < s.weight := by
  have grown : ({ s with toConnect := s.toConnect.erase other }.connectSlave true other).weight ≤
      ({ s with toConnect := s.toConnect.erase other } : Slave).weight + 3 :=
    Slave.weight_connectSlave other free
  have positive := Finset.card_pos.mpr ⟨other, left⟩
  have fewer := Finset.card_erase_of_mem left
  refine Nat.lt_of_le_of_lt grown ?_
  simp only [Slave.weight, fewer]
  omega

theorem Slave.weight_opened {s : Slave} {coroutine : Bool} {other : Nat} (keys : Finset Nat)
    (opening : s.opening coroutine = some other) :
    ({ s with opening := Function.update s.opening coroutine none, slaves := keys } : Slave).weight + 3 =
      s.weight := by
  cases coroutine
  · simp [Slave.weight, opening]
    omega
  · simp [Slave.weight, opening]
    omega

theorem opened_other (m : Mesh) (id other : Nat) (coroutine : Bool) :
    (m.opened id coroutine other).slaveNode = m.slaveNode ∧
      ∀ b, b ≠ id → (m.opened id coroutine other).notices b = m.notices b ∧
        (m.opened id coroutine other).slaves b = m.slaves b := by
  unfold Mesh.opened
  split_ifs
  · exact ⟨rfl, fun b is => ⟨rfl, setSlave_other _ _ is⟩⟩
  · exact ⟨rfl, fun b is => ⟨rfl, setSlave_other _ _ is⟩⟩

theorem Slave.weight_monitorMaster {s : Slave} (notice : Notice) (free : s.opening false = none) :
    (s.monitorMaster notice).weight ≤ s.weight + 5 := by
  cases notice with
  | wait n =>
    have small : (if 0 < n then Listener.started else .closed).weight ≤ 2 := by
      split_ifs
      · exact le_rfl
      · exact Nat.zero_le 2
    dsimp only [Slave.monitorMaster, Slave.weight]
    omega
  | connect other =>
    unfold Slave.monitorMaster
    cases queued : s.connectQueue with
    | none =>
      have := Slave.weight_connectSlave other free
      simp only
      omega
    | some queue =>
      have grown := Finset.card_insert_le other queue
      simp only [Slave.weight, queued, Option.elim_some]
      omega

theorem Sound.inside (sound : Sound m) {id : Nat} (moved : m.notices id ≠ [] ∨ m.slaves id ≠ .start) :
    id ∈ m.slaveNode := by
  by_contra outside
  obtain ⟨none_, same⟩ := (sound.placed id).stranger outside
  exact moved.elim (· none_) (· same)

theorem weight_step (sound : Sound m) {action : Action} (taken : step m action = some next)
    (old : ∀ id, action ≠ .handshake id) : next.weight < m.weight := by
  have one : ∀ id, id ∈ m.slaveNode → next.slaveNode = m.slaveNode →
      (∀ b, b ≠ id → next.notices b = m.notices b ∧ next.slaves b = m.slaves b) →
      next.load id + 2 * next.flights.length < m.load id + 2 * m.flights.length →
      next.weight < m.weight := by
    intro id inside nodes others less
    have change := weight_change inside nodes fun b is => by
      rw [Mesh.load, Mesh.load, (others b is).1, (others b is).2]
    omega
  cases step_taken taken with
  | @handshake id zero new => exact absurd rfl (old id)
  | @monitorMaster id notice rest free first =>
    refine one id (sound.inside (.inl (by simp [first]))) rfl (fun b is => ?_) ?_
    · exact ⟨Function.update_of_ne is .., setSlave_other _ _ is⟩
    · have grown := Slave.weight_monitorMaster notice free
      simp only [Mesh.load, setSlave_here, first, List.length_cons]
      simp only [Mesh.setSlave, Function.update_self]
      omega
  | @listen id started =>
    refine one id (sound.inside (.inr ?_)) rfl (fun b is => ⟨rfl, setSlave_other _ _ is⟩) ?_
    · intro start_
      rw [start_] at started
      cases started
    · simp only [Mesh.load, setSlave_here, Slave.weight, started, Listener.weight]
      simp only [Mesh.setSlave]
      omega
  | @close id listening woken =>
    refine one id (sound.inside (.inr ?_)) rfl (fun b is => ⟨rfl, setSlave_other _ _ is⟩) ?_
    · intro start_
      rw [start_] at listening
      cases listening
    · simp only [Mesh.load, setSlave_here, Slave.weight, listening, Listener.weight]
      simp only [Mesh.setSlave]
      omega
  | @ready id queue closed woken queued =>
    refine one id (sound.inside (.inr ?_)) rfl (fun b is => ⟨rfl, setSlave_other _ _ is⟩) ?_
    · intro start_
      obtain ⟨n, expected, -⟩ := woken
      rw [start_] at expected
      cases expected
    · simp only [Mesh.load, setSlave_here, Slave.weight, queued, Option.elim_none, Option.elim_some]
      simp only [Mesh.setSlave]
      omega
  | @connect id other left free =>
    refine one id (sound.inside (.inr ?_)) rfl (fun b is => ⟨rfl, setSlave_other _ _ is⟩) ?_
    · intro start_
      rw [start_] at left
      exact Finset.notMem_empty other left
    · have less := Slave.weight_connect left free
      simp only [Mesh.load, setSlave_here]
      dsimp only [Mesh.setSlave] at less ⊢
      omega
  | @opened id other coroutine opening =>
    have inside : id ∈ m.slaveNode := by
      refine sound.inside (.inr fun start_ => ?_)
      rw [start_] at opening
      cases opening
    obtain ⟨nodes, others⟩ := opened_other m id other coroutine
    refine one id inside nodes others ?_
    unfold Mesh.opened
    split_ifs with listening
    · have less := Slave.weight_opened (insert other (m.slaves id).slaves) opening
      simp only [Mesh.load, setSlave_here]
      dsimp only [Mesh.setSlave] at less ⊢
      rw [List.length_append, List.length_singleton]
      omega
    · have less := Slave.weight_opened (m.slaves id).slaves opening
      simp only [Mesh.load, setSlave_here]
      dsimp only [Mesh.setSlave] at less ⊢
      omega
  | @accept id other flight listening =>
    have inside := (sound.of_flight flight).1.2.1
    refine one other inside rfl (fun b is => ⟨rfl, setSlave_other _ _ is⟩) ?_
    have fewer := List.length_erase_of_mem flight
    have positive := List.length_pos_of_mem flight
    have lighter : ((m.slaves other).acceptSlave id).weight = (m.slaves other).weight := by
      unfold Slave.acceptSlave
      split_ifs <;> rfl
    simp only [Mesh.load, setSlave_here, lighter]
    simp only [Mesh.setSlave, fewer]
    omega

theorem weight_run {actions : List Action} (sound : Sound m)
    (old : ∀ action ∈ actions, ∀ id, action ≠ .handshake id)
    (ran : Transition.run step m actions = some next) : actions.length + next.weight ≤ m.weight := by
  induction actions generalizing m with
  | nil =>
    obtain rfl := Option.some.inj ran
    simp
  | cons action rest ih =>
    simp only [Transition.run] at ran
    cases taken : step m action with
    | none =>
      rw [taken] at ran
      cases ran
    | some middle =>
      rw [taken] at ran
      have less := weight_step sound taken (old action List.mem_cons_self)
      have later := ih (sound.step taken) (fun other inside => old other (List.mem_cons_of_mem _ inside))
        ran
      rw [List.length_cons]
      omega

theorem mesh_completes {joins actions : List Action}
    (joined : Transition.run step .start joins = some m)
    (old : ∀ action ∈ actions, ∀ id, action ≠ .handshake id)
    (ran : Transition.run step m actions = some next) :
    actions.length ≤ m.weight ∧ (Settled next → (Complete next ↔ next.refused = [])) := by
  have sound := reached_sound joined
  have bound := weight_run sound old ran
  have later := Transition.run_invariant step Sound (fun _ _ _ sound taken => sound.step taken) actions
    _ _ sound ran
  exact ⟨by omega, fun settled => settled_complete_iff later settled⟩

def pairJoins : List Action := [.handshake 1, .handshake 2]

def pairLinks : List Action :=
  [.monitorMaster 1, .ready 1, .monitorMaster 2, .listen 2, .monitorMaster 1, .opened 1 false,
    .accept 1 2, .close 2, .ready 2]

theorem pair_opened : ∃ m, Transition.run step .start (pairJoins ++ pairLinks.take 6) = some m ∧
    m.Before 1 2 := by
  obtain ⟨m, ran⟩ : ∃ m, Transition.run step .start (pairJoins ++ pairLinks.take 6) = some m :=
    ⟨_, rfl⟩
  refine ⟨m, ran, (linked_once ran 1 2).2.1 ?_⟩
  obtain rfl := Option.some.inj ran
  decide

theorem pair_completes : ∃ m next, Transition.run step .start pairJoins = some m ∧
    Transition.run step m pairLinks = some next ∧ pairLinks.length ≤ m.weight ∧
      (Settled next → (Complete next ↔ next.refused = [])) := by
  obtain ⟨m, joined⟩ : ∃ m, Transition.run step .start pairJoins = some m := ⟨_, rfl⟩
  obtain ⟨next, ran⟩ : ∃ next, Transition.run step m pairLinks = some next := by
    obtain rfl := Option.some.inj joined
    exact ⟨_, rfl⟩
  exact ⟨m, next, joined, ran, mesh_completes joined (by simp [pairLinks]) ran⟩

end Pskynet.Cslave
