import Mathlib.Data.Finset.Card
import Mathlib.Data.List.Basic
import Mathlib.Tactic
import Pskynet.Shared.Transition

set_option autoImplicit false

namespace Pskynet.Cslave

inductive Notice where
  | wait (n : Nat)
  | connect (slave : Nat)
  deriving DecidableEq

-- The socket thread comes to `uv_listen` some time after `socket.start`.
inductive Listener where
  | bound
  | started
  | listening
  | closed
  deriving DecidableEq

-- `expected` is the number that came with `"W"`. `opening` is what `monitor_master` and, of
-- `true`, `ready` are waiting for in `socket.open`.
structure Slave where
  expected : Option Nat
  slaveFd : Listener
  connectQueue : Option (Finset Nat)
  slaves : Finset Nat
  toConnect : Finset Nat
  opening : Bool → Option Nat

def Slave.start : Slave where
  expected := none
  slaveFd := .bound
  connectQueue := some ∅
  slaves := ∅
  toConnect := ∅
  opening := fun _ => none

-- `connect_slave`, up to `socket.open`
def Slave.connectSlave (s : Slave) (coroutine : Bool) (id : Nat) : Slave :=
  if id ∈ s.slaves then s
  else { s with opening := Function.update s.opening coroutine (some id) }

-- The first notice comes before `monitor_master` runs. Without others the slave does not listen.
def Slave.monitorMaster (s : Slave) : Notice → Slave
  | .wait n => { s with expected := some n, slaveFd := if 0 < n then .started else .closed }
  | .connect id =>
      match s.connectQueue with
      | some queue => { s with connectQueue := some (insert id queue) }
      | none => s.connectSlave false id

def Slave.acceptSlave (s : Slave) (id : Nat) : Slave :=
  if id ∈ s.slaves then s else { s with slaves := insert id s.slaves }

-- The places in a slave between a notice of `other` and the connection to it
def Slave.holding (s : Slave) (other : Nat) : Nat :=
  (if other ∈ s.connectQueue.getD ∅ then 1 else 0) + (if other ∈ s.toConnect then 1 else 0) +
    ((if s.opening false = some other then 1 else 0) + (if s.opening true = some other then 1 else 0))

def Slave.Woken (s : Slave) : Prop := ∃ n ∈ s.expected, n ≤ s.slaves.card

instance (s : Slave) : Decidable s.Woken :=
  match found : s.expected with
  | none => .isFalse (by simp [Slave.Woken, found])
  | some n => decidable_of_iff (n ≤ s.slaves.card) (by simp [Slave.Woken, found])

-- The slaves in the order of their handshakes, what the master has written to them, and the
-- connections that are open on one side and not accepted yet. `refused` are the connections that
-- could not be opened.
structure Mesh where
  slaveNode : List Nat
  notices : Nat → List Notice
  slaves : Nat → Slave
  flights : List (Nat × Nat)
  refused : List (Nat × Nat)

namespace Mesh

def start : Mesh := ⟨[], fun _ => [], fun _ => .start, [], []⟩

def setSlave (m : Mesh) (id : Nat) (s : Slave) : Mesh :=
  { m with slaves := Function.update m.slaves id s }

def reportSlave (m : Mesh) (id : Nat) : Mesh :=
  { m with
    slaveNode := m.slaveNode ++ [id]
    notices := fun other =>
      if other = id then [.wait m.slaveNode.length]
      else if other ∈ m.slaveNode then m.notices other ++ [.connect id]
      else m.notices other }

def opened (m : Mesh) (id : Nat) (coroutine : Bool) (other : Nat) : Mesh :=
  let s := m.slaves id
  let rest := { s with opening := Function.update s.opening coroutine none }
  if (m.slaves other).slaveFd = .listening then
    { m with flights := m.flights ++ [(id, other)] }.setSlave id
      { rest with slaves := insert other s.slaves }
  else { m with refused := m.refused ++ [(id, other)] }.setSlave id rest

end Mesh

inductive Action where
  | handshake (id : Nat)
  | monitorMaster (id : Nat)
  | listen (id : Nat)
  | close (id : Nat)
  | ready (id : Nat)
  | connect (id other : Nat)
  | opened (id : Nat) (coroutine : Bool)
  | accept (id other : Nat)
  deriving DecidableEq

def step (m : Mesh) : Action → Option Mesh
  | .handshake id => if id = 0 ∨ id ∈ m.slaveNode then none else some (m.reportSlave id)
  | .monitorMaster id =>
      let s := m.slaves id
      if s.opening false = none then
        match m.notices id with
        | [] => none
        | notice :: rest =>
            some ({ m with notices := Function.update m.notices id rest }.setSlave id
              (s.monitorMaster notice))
      else none
  | .listen id =>
      let s := m.slaves id
      if s.slaveFd = .started then some (m.setSlave id { s with slaveFd := .listening }) else none
  | .close id =>
      let s := m.slaves id
      if s.slaveFd = .listening ∧ s.Woken then some (m.setSlave id { s with slaveFd := .closed })
      else none
  | .ready id =>
      let s := m.slaves id
      if s.slaveFd = .closed ∧ s.Woken then
        s.connectQueue.map fun queue =>
          m.setSlave id { s with connectQueue := none, toConnect := queue }
      else none
  | .connect id other =>
      let s := m.slaves id
      if other ∈ s.toConnect ∧ s.opening true = none then
        some (m.setSlave id
          ({ s with toConnect := s.toConnect.erase other }.connectSlave true other))
      else none
  | .opened id coroutine =>
      ((m.slaves id).opening coroutine).map fun other => m.opened id coroutine other
  | .accept id other =>
      let s := m.slaves other
      if m.flights.contains (id, other) ∧ s.slaveFd = .listening then
        some ({ m with flights := m.flights.erase (id, other) }.setSlave other (s.acceptSlave id))
      else none

-- What a step can do, with what it asks for.
inductive Taken (m : Mesh) : Action → Mesh → Prop where
  | handshake {id : Nat} (zero : id ≠ 0) (new : id ∉ m.slaveNode) :
      Taken m (.handshake id) (m.reportSlave id)
  | monitorMaster {id : Nat} {notice : Notice} {rest : List Notice}
      (free : (m.slaves id).opening false = none) (first : m.notices id = notice :: rest) :
      Taken m (.monitorMaster id)
        ({ m with notices := Function.update m.notices id rest }.setSlave id
          ((m.slaves id).monitorMaster notice))
  | listen {id : Nat} (started : (m.slaves id).slaveFd = .started) :
      Taken m (.listen id) (m.setSlave id { m.slaves id with slaveFd := .listening })
  | close {id : Nat} (listening : (m.slaves id).slaveFd = .listening) (woken : (m.slaves id).Woken) :
      Taken m (.close id) (m.setSlave id { m.slaves id with slaveFd := .closed })
  | ready {id : Nat} {queue : Finset Nat} (closed : (m.slaves id).slaveFd = .closed)
      (woken : (m.slaves id).Woken) (queued : (m.slaves id).connectQueue = some queue) :
      Taken m (.ready id)
        (m.setSlave id { m.slaves id with connectQueue := none, toConnect := queue })
  | connect {id other : Nat} (left : other ∈ (m.slaves id).toConnect)
      (free : (m.slaves id).opening true = none) :
      Taken m (.connect id other)
        (m.setSlave id
          ({ m.slaves id with toConnect := (m.slaves id).toConnect.erase other }.connectSlave true
            other))
  | opened {id other : Nat} {coroutine : Bool}
      (opening : (m.slaves id).opening coroutine = some other) :
      Taken m (.opened id coroutine) (m.opened id coroutine other)
  | accept {id other : Nat} (flight : (id, other) ∈ m.flights)
      (listening : (m.slaves other).slaveFd = .listening) :
      Taken m (.accept id other)
        ({ m with flights := m.flights.erase (id, other) }.setSlave other
          ((m.slaves other).acceptSlave id))

theorem step_taken {m next : Mesh} {action : Action} (taken : step m action = some next) :
    Taken m action next := by
  cases action with
  | handshake id =>
    obtain ⟨new, same⟩ := Option.ite_none_left_eq_some.mp taken
    cases same
    exact .handshake (not_or.mp new).1 (not_or.mp new).2
  | monitorMaster id =>
    obtain ⟨free, read⟩ := Option.ite_none_right_eq_some.mp taken
    cases notices : m.notices id with
    | nil =>
      rw [notices] at read
      cases read
    | cons notice rest =>
      rw [notices] at read
      cases read
      exact .monitorMaster free notices
  | listen id =>
    obtain ⟨started, same⟩ := Option.ite_none_right_eq_some.mp taken
    cases same
    exact .listen started
  | close id =>
    obtain ⟨⟨listening, woken⟩, same⟩ := Option.ite_none_right_eq_some.mp taken
    cases same
    exact .close listening woken
  | ready id =>
    obtain ⟨⟨closed, woken⟩, mapped⟩ := Option.ite_none_right_eq_some.mp taken
    obtain ⟨queue, queued, rfl⟩ := Option.map_eq_some_iff.mp mapped
    exact .ready closed woken queued
  | connect id other =>
    obtain ⟨⟨left, free⟩, same⟩ := Option.ite_none_right_eq_some.mp taken
    cases same
    exact .connect left free
  | opened id coroutine =>
    obtain ⟨other, opening, rfl⟩ := Option.map_eq_some_iff.mp taken
    exact .opened opening
  | accept id other =>
    obtain ⟨⟨flight, listening⟩, same⟩ := Option.ite_none_right_eq_some.mp taken
    cases same
    exact .accept (List.contains_iff_mem.mp flight) listening

namespace Mesh

variable (m : Mesh)

def rank (id : Nat) : Nat := m.slaveNode.idxOf id

def Before (a b : Nat) : Prop := a ∈ m.slaveNode ∧ b ∈ m.slaveNode ∧ m.rank a < m.rank b

instance (a b : Nat) : Decidable (m.Before a b) := inferInstanceAs (Decidable (_ ∧ _ ∧ _))

-- The places between the handshake of `b` and a connection that `a` has opened to it
def pending (a b : Nat) : Nat := (m.notices a).count (.connect b) + (m.slaves a).holding b

end Mesh

structure Placed (m : Mesh) (b : Nat) : Prop where
  early : ((m.slaves b).connectQueue).isSome →
    (m.slaves b).toConnect = ∅ ∧ (∀ coroutine, (m.slaves b).opening coroutine = none) ∧
      ∀ a ∈ (m.slaves b).slaves, m.Before a b
  waits : b ∈ m.slaveNode → (m.slaves b).expected = none ∧
      (∃ later, m.notices b = .wait (m.rank b) :: later ∧ ∀ n, .wait n ∉ later) ∨
    (m.slaves b).expected = some (m.rank b) ∧ ∀ n, .wait n ∉ m.notices b
  quiet : (m.slaves b).expected = none →
    (m.slaves b).slaveFd = .bound ∧ ((m.slaves b).connectQueue).isSome
  asked : (m.slaves b).expected ≠ none → (m.slaves b).slaveFd ≠ .bound
  stranger : b ∉ m.slaveNode → m.notices b = [] ∧ m.slaves b = .start
  closed : (m.slaves b).slaveFd = .closed → ∀ a, m.Before a b → a ∈ (m.slaves b).slaves
  ended : (m.slaves b).connectQueue = none → (m.slaves b).slaveFd = .closed

structure Sound (m : Mesh) : Prop where
  nodup : m.slaveNode.Nodup
  once : ∀ a b, m.Before a b →
    m.pending a b + m.flights.count (a, b) + m.refused.count (a, b) +
      (if a ∈ (m.slaves b).slaves then 1 else 0) = 1
  never : ∀ a b, ¬m.Before a b →
    m.pending a b = 0 ∧ m.flights.count (a, b) = 0 ∧ m.refused.count (a, b) = 0
  opens : ∀ a b, m.Before a b →
    (b ∈ (m.slaves a).slaves ↔ 0 < m.flights.count (a, b) ∨ a ∈ (m.slaves b).slaves)
  members : ∀ a b, b ∈ (m.slaves a).slaves → m.Before a b ∨ m.Before b a
  placed : ∀ b, Placed m b

variable {m next : Mesh}

theorem start_sound : Sound .start where
  nodup := List.nodup_nil
  once a b before := by cases before.1
  never a b _ := ⟨rfl, rfl, rfl⟩
  opens a b before := by cases before.1
  members a b inside := by cases inside
  placed b := {
    early := fun _ => ⟨rfl, fun _ => rfl, fun a inside => by cases inside⟩
    waits := fun inside => by cases inside
    quiet := fun _ => ⟨rfl, rfl⟩
    asked := fun read => absurd rfl read
    stranger := fun _ => ⟨rfl, rfl⟩
    closed := fun closed => by cases closed
    ended := fun done => by cases done }

theorem Sound.pending_le (sound : Sound m) (a b : Nat) : m.pending a b ≤ 1 := by
  by_cases before : m.Before a b
  · have := sound.once a b before
    omega
  · have := sound.never a b before
    omega

theorem Sound.of_pending (sound : Sound m) {a b : Nat} (left : 0 < m.pending a b) :
    m.Before a b ∧ m.flights.count (a, b) = 0 ∧ m.refused.count (a, b) = 0 ∧
      b ∉ (m.slaves a).slaves ∧ a ∉ (m.slaves b).slaves := by
  have before : m.Before a b := by
    by_contra other
    have := sound.never a b other
    omega
  have one := sound.once a b before
  have opens := sound.opens a b before
  split_ifs at one with inside
  · omega
  · refine ⟨before, by omega, by omega, fun opened => ?_, inside⟩
    rcases opens.mp opened with flight | accepted
    · omega
    · exact inside accepted

theorem rank_reportSlave {id a : Nat} (inside : a ∈ m.slaveNode) :
    (m.reportSlave id).rank a = m.rank a := List.idxOf_append_of_mem inside

section

variable {id : Nat} (fresh : id ∉ m.slaveNode)

include fresh

theorem rank_new : (m.reportSlave id).rank id = m.slaveNode.length := by
  have here : (m.slaveNode ++ [id]).idxOf id = m.slaveNode.length + [id].idxOf id :=
    List.idxOf_append_of_notMem fresh
  rw [List.idxOf_cons_self, Nat.add_zero] at here
  exact here

theorem before_reportSlave (a b : Nat) :
    (m.reportSlave id).Before a b ↔ m.Before a b ∨ a ∈ m.slaveNode ∧ b = id := by
  have nodes : ∀ c, c ∈ (m.reportSlave id).slaveNode ↔ c ∈ m.slaveNode ∨ c = id := by
    intro c
    simp [Mesh.reportSlave]
  simp only [Mesh.Before, nodes]
  constructor
  · rintro ⟨old | rfl, old' | rfl, less⟩
    · rw [rank_reportSlave old, rank_reportSlave old'] at less
      exact .inl ⟨old, old', less⟩
    · exact .inr ⟨old, rfl⟩
    · rw [rank_reportSlave old', rank_new fresh] at less
      have := List.idxOf_lt_length_of_mem old'
      simp only [Mesh.rank] at less
      omega
    · exact absurd less (Nat.lt_irrefl _)
  · rintro (⟨old, old', less⟩ | ⟨old, rfl⟩)
    · refine ⟨.inl old, .inl old', ?_⟩
      rwa [rank_reportSlave old, rank_reportSlave old']
    · refine ⟨.inl old, .inr rfl, ?_⟩
      rw [rank_reportSlave old, rank_new fresh]
      exact List.idxOf_lt_length_of_mem old

theorem pending_reportSlave (sound : Sound m) (a b : Nat) :
    (m.reportSlave id).pending a b =
      m.pending a b + if a ∈ m.slaveNode ∧ b = id then 1 else 0 := by
  unfold Mesh.pending
  have notices : (m.reportSlave id).notices a =
      if a = id then [.wait m.slaveNode.length]
      else if a ∈ m.slaveNode then m.notices a ++ [.connect id] else m.notices a := rfl
  have slaves : (m.reportSlave id).slaves a = m.slaves a := rfl
  rw [notices, slaves]
  by_cases self : a = id
  · subst self
    have none_ := ((sound.placed a).stranger fresh).1
    simp [none_, fresh]
  · by_cases inside : a ∈ m.slaveNode
    · by_cases same : b = id
      · simp [self, inside, same]
        omega
      · have other : Notice.connect id ≠ .connect b := by
          intro equal
          exact same (Notice.connect.inj equal).symm
        simp [self, inside, same, other]
    · simp [self, inside]

theorem Sound.reportSlave (sound : Sound m) : Sound (m.reportSlave id) := by
  have new : ∀ a, a ∈ m.slaveNode → a ≠ id := fun a inside same => fresh (same ▸ inside)
  have unrelated : ∀ a, ¬m.Before a id := fun a before => fresh before.2.1
  have unrelated' : ∀ b, ¬m.Before id b := fun b before => fresh before.1
  have mono : ∀ a b, m.Before a b → (m.reportSlave id).Before a b := fun a b before =>
    (before_reportSlave fresh a b).mpr (.inl before)
  have start_ : m.slaves id = .start := ((sound.placed id).stranger fresh).2
  have empty : (m.slaves id).slaves = ∅ := by rw [start_]; rfl
  constructor
  · exact List.nodup_append.mpr ⟨sound.nodup, List.nodup_singleton id,
      fun a inside b here => by rw [List.mem_singleton.mp here]; exact new a inside⟩
  · intro a b before
    rw [pending_reportSlave fresh sound]
    rcases (before_reportSlave fresh a b).mp before with old | ⟨inside, rfl⟩
    · have other : b ≠ id := new b old.2.1
      have := sound.once a b old
      simp only [other, and_false, if_false]
      exact this
    · have := sound.never a b (unrelated a)
      have absent : a ∉ (m.slaves b).slaves := by rw [empty]; exact Finset.notMem_empty a
      simp only [inside, and_self, if_true]
      change _ + m.flights.count (a, b) + m.refused.count (a, b) +
        (if a ∈ (m.slaves b).slaves then 1 else 0) = 1
      rw [if_neg absent]
      omega
  · intro a b other
    rw [before_reportSlave fresh, not_or] at other
    rw [pending_reportSlave fresh sound, if_neg other.2]
    exact sound.never a b other.1
  · intro a b before
    rcases (before_reportSlave fresh a b).mp before with old | ⟨inside, rfl⟩
    · exact sound.opens a b old
    · have none_ := sound.never a b (unrelated a)
      change b ∈ (m.slaves a).slaves ↔ 0 < m.flights.count (a, b) ∨ a ∈ (m.slaves b).slaves
      rw [empty, none_.2.1]
      refine iff_of_false (fun opened => ?_) (by simp)
      rcases sound.members a b opened with before | before
      · exact unrelated a before
      · exact unrelated' a before
  · intro a b inside
    exact (sound.members a b inside).imp (mono a b) (mono b a)
  · intro b
    have placed := sound.placed b
    have notices : (m.reportSlave id).notices b =
        if b = id then [.wait m.slaveNode.length]
        else if b ∈ m.slaveNode then m.notices b ++ [.connect id] else m.notices b := rfl
    constructor
    · intro unready
      obtain ⟨one, two, three⟩ := placed.early unready
      exact ⟨one, two, fun a inside => mono a b (three a inside)⟩
    · intro inside
      rw [notices]
      by_cases self : b = id
      · subst self
        refine .inl ⟨?_, [], ?_, by simp⟩
        · change (m.slaves b).expected = none
          rw [start_]
          rfl
        · rw [if_pos rfl, rank_new fresh]
      · have old : b ∈ m.slaveNode := by
          simp only [Mesh.reportSlave, List.mem_append, List.mem_singleton] at inside
          exact inside.resolve_right self
        rw [if_neg self, if_pos old, rank_reportSlave old]
        rcases placed.waits old with ⟨unread, later, same, others⟩ | ⟨read, others⟩
        · exact .inl ⟨unread, later ++ [.connect id], by rw [same]; rfl, by simpa using others⟩
        · exact .inr ⟨read, by simpa using others⟩
    · exact placed.quiet
    · exact placed.asked
    · intro outside
      simp only [Mesh.reportSlave, List.mem_append, List.mem_singleton, not_or] at outside
      obtain ⟨none_, same⟩ := placed.stranger outside.1
      refine ⟨?_, same⟩
      rw [notices, if_neg outside.2, if_neg outside.1, none_]
    · intro closed a before
      rcases (before_reportSlave fresh a b).mp before with old | ⟨-, rfl⟩
      · exact placed.closed closed a old
      · change (m.slaves b).slaveFd = .closed at closed
        rw [start_] at closed
        cases closed
    · exact placed.ended

end

section

variable (sound : Sound m) (nodes : next.slaveNode = m.slaveNode)

include nodes

theorem before_same (a b : Nat) : next.Before a b ↔ m.Before a b := by
  simp only [Mesh.Before, Mesh.rank, nodes]

theorem Placed.same {b : Nat} (placed : Placed m b) (notices : next.notices b = m.notices b)
    (slaves : next.slaves b = m.slaves b) : Placed next b where
  early := by
    rw [slaves]
    simp only [before_same nodes]
    exact placed.early
  waits := by
    rw [slaves, notices, nodes, Mesh.rank, nodes]
    exact placed.waits
  quiet := by
    rw [slaves]
    exact placed.quiet
  asked := by
    rw [slaves]
    exact placed.asked
  stranger := by
    rw [slaves, notices, nodes]
    exact placed.stranger
  closed := by
    rw [slaves]
    simp only [before_same nodes]
    exact placed.closed
  ended := by
    rw [slaves]
    exact placed.ended

include sound

theorem Sound.moved (id : Nat) (flights : next.flights = m.flights) (refused : next.refused = m.refused)
    (same : (next.slaves id).slaves = (m.slaves id).slaves)
    (others : ∀ b, b ≠ id → next.notices b = m.notices b ∧ next.slaves b = m.slaves b)
    (pending : ∀ b, next.pending id b = m.pending id b) (placed : Placed next id) :
    Sound next := by
  have keys : ∀ b, (next.slaves b).slaves = (m.slaves b).slaves := by
    intro b
    by_cases here : b = id
    · rw [here, same]
    · rw [(others b here).2]
  have counts : ∀ a b, next.pending a b = m.pending a b := by
    intro a b
    by_cases here : a = id
    · rw [here, pending]
    · rw [Mesh.pending, Mesh.pending, (others a here).1, (others a here).2]
  constructor
  · rw [nodes]
    exact sound.nodup
  · intro a b before
    rw [counts, flights, refused, keys]
    exact sound.once a b ((before_same nodes a b).mp before)
  · intro a b other
    rw [counts, flights, refused]
    exact sound.never a b fun before => other ((before_same nodes a b).mpr before)
  · intro a b before
    rw [flights, keys, keys]
    exact sound.opens a b ((before_same nodes a b).mp before)
  · intro a b inside
    rw [keys] at inside
    simp only [before_same nodes]
    exact sound.members a b inside
  · intro b
    by_cases here : b = id
    · exact here ▸ placed
    · exact (sound.placed b).same nodes (others b here).1 (others b here).2

end

theorem setSlave_here (m : Mesh) (id : Nat) (s : Slave) : (m.setSlave id s).slaves id = s :=
  Function.update_self ..

theorem setSlave_other (m : Mesh) {id b : Nat} (s : Slave) (other : b ≠ id) :
    (m.setSlave id s).slaves b = m.slaves b := Function.update_of_ne other ..

theorem earlier_card (m : Mesh) (b : Nat) :
    ((m.slaveNode.take (m.rank b)).toFinset).card ≤ m.rank b :=
  (List.toFinset_card_le _).trans (List.length_take_le _ _)

theorem earlier_iff (a b : Nat) (inside : b ∈ m.slaveNode) :
    a ∈ m.slaveNode.take (m.rank b) ↔ m.Before a b := by
  constructor
  · intro early
    have there := List.mem_of_mem_take early
    exact ⟨there, inside, (List.mem_take_iff_idxOf_lt there).mp early⟩
  · rintro ⟨there, -, less⟩
    exact (List.mem_take_iff_idxOf_lt there).mpr less

theorem Sound.accepted (sound : Sound m) {b : Nat} (woken : (m.slaves b).Woken)
    (unready : ((m.slaves b).connectQueue).isSome) {a : Nat} (before : m.Before a b) :
    a ∈ (m.slaves b).slaves := by
  have inside := before.2.1
  have placed := sound.placed b
  obtain ⟨n, expected, enough⟩ := woken
  have expects : n = m.rank b := by
    rcases placed.waits inside with ⟨unread, -⟩ | ⟨read, -⟩
    · cases unread.symm.trans expected
    · exact Option.some.inj (expected.symm.trans read)
  have among : (m.slaves b).slaves ⊆ (m.slaveNode.take (m.rank b)).toFinset := by
    intro c member
    exact List.mem_toFinset.mpr ((earlier_iff c b inside).mpr ((placed.early unready).2.2 c member))
  have all := Finset.eq_of_subset_of_card_le among
    ((earlier_card m b).trans (expects ▸ enough))
  rw [all]
  exact List.mem_toFinset.mpr ((earlier_iff a b inside).mpr before)

end Pskynet.Cslave
