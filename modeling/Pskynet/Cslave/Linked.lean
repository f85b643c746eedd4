import Pskynet.Cslave.Mesh

set_option autoImplicit false

namespace Pskynet.Cslave

variable {m next : Mesh}

-- The socket is open or about to be, so that its slave has read `"W"` and is not ready yet.
theorem Sound.setFd (sound : Sound m) {id : Nat} {fd : Listener}
    (busy : (m.slaves id).slaveFd = .started ∨ (m.slaves id).slaveFd = .listening)
    (asked : fd ≠ .bound) (closed : fd = .closed → ∀ a, m.Before a id → a ∈ (m.slaves id).slaves) :
    Sound (m.setSlave id { m.slaves id with slaveFd := fd }) := by
  have placed := sound.placed id
  have here := setSlave_here m id { m.slaves id with slaveFd := fd }
  refine sound.moved rfl id rfl rfl (by rw [here]) (fun b other => ?_) (fun b => ?_) ?_
  · exact ⟨rfl, setSlave_other m _ other⟩
  · rw [Mesh.pending, here]
    rfl
  · constructor
    · rw [here]
      exact placed.early
    · rw [here]
      exact placed.waits
    · rw [here]
      intro unread
      rw [(placed.quiet unread).1] at busy
      cases busy <;> contradiction
    · rw [here]
      exact fun _ => asked
    · intro outside
      rw [(placed.stranger outside).2] at busy
      cases busy <;> contradiction
    · rw [here]
      exact closed
    · rw [here]
      intro done
      rw [placed.ended done] at busy
      cases busy <;> contradiction

theorem Sound.listen (sound : Sound m) {id : Nat} (started : (m.slaves id).slaveFd = .started) :
    Sound (m.setSlave id { m.slaves id with slaveFd := .listening }) :=
  sound.setFd (.inl started) Listener.noConfusion Listener.noConfusion

theorem Sound.close (sound : Sound m) {id : Nat} (listening : (m.slaves id).slaveFd = .listening)
    (woken : (m.slaves id).Woken) :
    Sound (m.setSlave id { m.slaves id with slaveFd := .closed }) := by
  have unready : ((m.slaves id).connectQueue).isSome := by
    rw [Option.isSome_iff_ne_none]
    intro done
    cases listening.symm.trans ((sound.placed id).ended done)
  exact sound.setFd (.inr listening) Listener.noConfusion
    fun _ a before => sound.accepted woken unready before

theorem Sound.ready (sound : Sound m) {id : Nat} {queue : Finset Nat}
    (closed : (m.slaves id).slaveFd = .closed) (woken : (m.slaves id).Woken)
    (queued : (m.slaves id).connectQueue = some queue) :
    Sound (m.setSlave id { m.slaves id with connectQueue := none, toConnect := queue }) := by
  have placed := sound.placed id
  have here := setSlave_here m id { m.slaves id with connectQueue := none, toConnect := queue }
  obtain ⟨idle, free, -⟩ := placed.early (by rw [queued]; rfl)
  obtain ⟨n, expected, -⟩ := woken
  refine sound.moved rfl id rfl rfl (by rw [here]) (fun b other => ?_) (fun b => ?_) ?_
  · exact ⟨rfl, setSlave_other m _ other⟩
  · rw [Mesh.pending, Mesh.pending, here]
    simp [Slave.holding, queued, idle]
    rfl
  · constructor
    · rw [here]
      exact fun unready => by cases unready
    · rw [here]
      exact placed.waits
    · rw [here]
      exact fun unread => by cases unread.symm.trans expected
    · rw [here]
      exact placed.asked
    · intro outside
      rw [(placed.stranger outside).2] at expected
      cases expected
    · rw [here]
      exact placed.closed
    · rw [here]
      exact fun _ => closed

theorem Sound.connect (sound : Sound m) {id other : Nat} (left : other ∈ (m.slaves id).toConnect)
    (free : (m.slaves id).opening true = none) :
    Sound (m.setSlave id
      ({ m.slaves id with toConnect := (m.slaves id).toConnect.erase other }.connectSlave true
        other)) := by
  have placed := sound.placed id
  have some_ : 0 < m.pending id other := by
    unfold Mesh.pending Slave.holding
    rw [if_pos left]
    omega
  obtain ⟨-, -, -, unopened, -⟩ := sound.of_pending some_
  have one := sound.pending_le id other
  have busy : ¬((m.slaves id).connectQueue).isSome := by
    intro unready
    rw [(placed.early unready).1] at left
    exact Finset.notMem_empty other left
  have moves : ({ m.slaves id with toConnect := (m.slaves id).toConnect.erase other } : Slave).connectSlave
      true other =
        { m.slaves id with
          toConnect := (m.slaves id).toConnect.erase other
          opening := Function.update (m.slaves id).opening true (some other) } := if_neg unopened
  rw [moves]
  generalize changed : ({ m.slaves id with
    toConnect := (m.slaves id).toConnect.erase other
    opening := Function.update (m.slaves id).opening true (some other) } : Slave) = s
  have here := setSlave_here m id s
  refine sound.moved rfl id rfl rfl (by rw [here, ← changed]) (fun b other => ?_) (fun b => ?_) ?_
  · exact ⟨rfl, setSlave_other m _ other⟩
  · rw [Mesh.pending, Mesh.pending, here, ← changed]
    change (m.notices id).count _ + _ = _
    by_cases same : b = other
    · subst same
      simp [Slave.holding, left, free]
      omega
    · have unequal : ¬(some other = some b) := fun equal => same (Option.some.inj equal).symm
      simp [Slave.holding, free, unequal, same]
  · constructor
    · rw [here, ← changed]
      exact fun unready => absurd unready busy
    · rw [here, ← changed]
      exact placed.waits
    · rw [here, ← changed]
      exact placed.quiet
    · rw [here, ← changed]
      exact placed.asked
    · intro outside
      rw [(placed.stranger outside).2] at left
      exact absurd left (Finset.notMem_empty other)
    · rw [here, ← changed]
      exact placed.closed
    · rw [here, ← changed]
      exact placed.ended

section

variable {id : Nat} {rest : List Notice}

theorem Sound.read_wait (sound : Sound m) {n : Nat} (first : m.notices id = .wait n :: rest) :
    Sound ({ m with notices := Function.update m.notices id rest }.setSlave id
      ((m.slaves id).monitorMaster (.wait n))) := by
  have placed := sound.placed id
  have inside : id ∈ m.slaveNode := by
    by_contra outside
    rw [(placed.stranger outside).1] at first
    cases first
  obtain ⟨unread, later, same, others⟩ : (m.slaves id).expected = none ∧
      ∃ later, m.notices id = .wait (m.rank id) :: later ∧ ∀ n, .wait n ∉ later := by
    rcases placed.waits inside with unread | ⟨-, others⟩
    · exact unread
    · exact absurd (first ▸ List.mem_cons_self) (others n)
  obtain ⟨waits, rfl⟩ := List.cons.inj (first.symm.trans same)
  obtain rfl := Notice.wait.inj waits
  generalize changed : (m.slaves id).monitorMaster (.wait (m.rank id)) = s
  have here := setSlave_here { m with notices := Function.update m.notices id rest } id s
  have left : ({ m with notices := Function.update m.notices id rest }.setSlave id s).notices id =
      rest := Function.update_self ..
  obtain ⟨silent, unready⟩ := placed.quiet unread
  refine sound.moved rfl id rfl rfl (by rw [here, ← changed]; rfl) (fun b other => ?_) (fun b => ?_) ?_
  · exact ⟨Function.update_of_ne other .., setSlave_other _ _ other⟩
  · rw [Mesh.pending, Mesh.pending, here, left, first, ← changed]
    have unequal : Notice.wait (m.rank id) ≠ .connect b := by
      intro equal
      cases equal
    rw [List.count_cons_of_ne unequal]
    rfl
  · constructor
    · rw [here, ← changed]
      exact placed.early
    · intro _
      rw [here, left, ← changed]
      exact .inr ⟨rfl, others⟩
    · rw [here, ← changed]
      exact fun unread => by cases unread
    · rw [here, ← changed]
      intro _
      change (if 0 < m.rank id then Listener.started else .closed) ≠ .bound
      split_ifs <;> decide
    · exact fun outside => absurd inside outside
    · rw [here, ← changed]
      intro closed a before
      have positive : ¬0 < m.rank id := by
        simpa [Slave.monitorMaster] using closed
      have less := before.2.2
      change m.rank a < m.rank id at less
      omega
    · rw [here, ← changed]
      intro done
      change (m.slaves id).connectQueue = none at done
      rw [done] at unready
      cases unready

theorem Sound.read_connect (sound : Sound m) {other : Nat}
    (free : (m.slaves id).opening false = none)
    (first : m.notices id = .connect other :: rest) :
    Sound ({ m with notices := Function.update m.notices id rest }.setSlave id
      ((m.slaves id).monitorMaster (.connect other))) := by
  have placed := sound.placed id
  have inside : id ∈ m.slaveNode := by
    by_contra outside
    rw [(placed.stranger outside).1] at first
    cases first
  have one := sound.pending_le id other
  have count : m.pending id other = rest.count (.connect other) + 1 + (m.slaves id).holding other := by
    rw [Mesh.pending, first, List.count_cons_self]
  obtain ⟨-, -, -, unopened, -⟩ := sound.of_pending (a := id) (b := other) (by omega)
  have idle : (m.slaves id).holding other = 0 := by omega
  have moved : ((m.slaves id).monitorMaster (.connect other)).slaves = (m.slaves id).slaves ∧
      ((m.slaves id).monitorMaster (.connect other)).expected = (m.slaves id).expected ∧
      ((m.slaves id).monitorMaster (.connect other)).slaveFd = (m.slaves id).slaveFd ∧
      ((m.slaves id).monitorMaster (.connect other)).toConnect = (m.slaves id).toConnect ∧
      (((m.slaves id).monitorMaster (.connect other)).connectQueue.isSome =
        (m.slaves id).connectQueue.isSome) ∧
      ((m.slaves id).connectQueue.isSome →
        ((m.slaves id).monitorMaster (.connect other)).opening = (m.slaves id).opening) := by
    unfold Slave.monitorMaster Slave.connectSlave
    cases queued : (m.slaves id).connectQueue with
    | none => simp [unopened]
    | some queue => simp
  have holding : ∀ b, ((m.slaves id).monitorMaster (.connect other)).holding b =
      (m.slaves id).holding b + if b = other then 1 else 0 := by
    intro b
    unfold Slave.monitorMaster Slave.connectSlave
    cases queued : (m.slaves id).connectQueue with
    | none =>
      by_cases same : b = other
      · subst same
        simp [Slave.holding, unopened, free, queued]
        omega
      · have unequal : ¬(some other = some b) := fun equal => same (Option.some.inj equal).symm
        simp [Slave.holding, unopened, free, queued, same, unequal]
    | some queue =>
      by_cases same : b = other
      · subst same
        have absent : b ∉ queue := by
          intro member
          simp [Slave.holding, queued, member] at idle
        simp [Slave.holding, queued, absent]
        omega
      · simp [Slave.holding, queued, same]
  obtain ⟨keys, expected, slaveFd, toConnect, queued, opening⟩ := moved
  generalize (m.slaves id).monitorMaster (.connect other) = s at *
  have here := setSlave_here { m with notices := Function.update m.notices id rest } id s
  have left : ({ m with notices := Function.update m.notices id rest }.setSlave id s).notices id =
      rest := Function.update_self ..
  refine sound.moved rfl id rfl rfl (by rw [here, keys]) (fun b other => ?_) (fun b => ?_) ?_
  · exact ⟨Function.update_of_ne other .., setSlave_other _ _ other⟩
  · rw [Mesh.pending, Mesh.pending, here, left, first, holding, List.count_cons]
    by_cases same : b = other
    · simp [same]
      omega
    · have unequal : ¬(Notice.connect other = .connect b) := by
        intro equal
        exact same (Notice.connect.inj equal).symm
      simp [same, unequal]
  · constructor
    · rw [here, queued, toConnect, keys]
      intro unready
      rw [opening unready]
      exact placed.early unready
    · intro _
      rw [here, left, expected]
      rcases placed.waits inside with ⟨-, later, same, -⟩ | ⟨read, others⟩
      · cases first.symm.trans same
      · rw [first] at others
        exact .inr ⟨read, fun n member => others n (List.mem_cons_of_mem _ member)⟩
    · rw [here, expected, slaveFd, queued]
      exact placed.quiet
    · rw [here, expected, slaveFd]
      exact placed.asked
    · exact fun outside => absurd inside outside
    · rw [here, slaveFd, keys]
      exact placed.closed
    · rw [here, slaveFd]
      intro done
      refine placed.ended ?_
      rw [← Option.not_isSome_iff_eq_none, ← queued, done]
      simp

end

theorem Mesh.Before.not_after {a b : Nat} (before : m.Before a b) : ¬m.Before b a := by
  intro after
  have one := before.2.2
  have two := after.2.2
  omega

theorem Mesh.Before.ne {a b : Nat} (before : m.Before a b) : b ≠ a := by
  rintro rfl
  exact before.not_after before

theorem Sound.of_flight (sound : Sound m) {a b : Nat} (flight : (a, b) ∈ m.flights) :
    m.Before a b ∧ m.pending a b = 0 ∧ m.flights.count (a, b) = 1 ∧ m.refused.count (a, b) = 0 ∧
      a ∉ (m.slaves b).slaves := by
  have positive := List.count_pos_iff.mpr flight
  have before : m.Before a b := by
    by_contra other
    have := sound.never a b other
    omega
  have one := sound.once a b before
  split_ifs at one with inside
  · omega
  · exact ⟨before, by omega, by omega, by omega, inside⟩

theorem Sound.accept (sound : Sound m) {id other : Nat} (flight : (id, other) ∈ m.flights) :
    Sound ({ m with flights := m.flights.erase (id, other) }.setSlave other
      ((m.slaves other).acceptSlave id)) := by
  obtain ⟨before, settled, flights, refused, absent⟩ := sound.of_flight flight
  have placed := sound.placed other
  have different := before.ne
  have accepts : (m.slaves other).acceptSlave id =
      { m.slaves other with slaves := insert id (m.slaves other).slaves } := if_neg absent
  rw [accepts]
  generalize changed : ({ m.slaves other with slaves := insert id (m.slaves other).slaves } : Slave) = s
  have here := setSlave_here { m with flights := m.flights.erase (id, other) } other s
  have there := fun b (is : b ≠ other) =>
    setSlave_other { m with flights := m.flights.erase (id, other) } s is
  generalize reached : ({ m with flights := m.flights.erase (id, other) } : Mesh).setSlave other s = next
    at *
  have nodes : next.slaveNode = m.slaveNode := by rw [← reached]; rfl
  have notices : next.notices = m.notices := by rw [← reached]; rfl
  have refuses : next.refused = m.refused := by rw [← reached]; rfl
  have counts : ∀ a b, next.flights.count (a, b) =
      m.flights.count (a, b) - if (id, other) = (a, b) then 1 else 0 := by
    intro a b
    rw [← reached]
    change (m.flights.erase (id, other)).count (a, b) = _
    rw [List.count_erase]
    simp
  have pending : ∀ a b, next.pending a b = m.pending a b := by
    intro a b
    rw [Mesh.pending, Mesh.pending, notices]
    by_cases same : a = other
    · rw [same, here, ← changed]
      rfl
    · rw [there a same]
  have keys : ∀ a b, b ∈ (next.slaves a).slaves ↔ b ∈ (m.slaves a).slaves ∨ a = other ∧ b = id := by
    intro a b
    by_cases same : a = other
    · rw [same, here, ← changed]
      simp [or_comm]
    · rw [there a same]
      simp [same]
  constructor
  · rw [nodes]
    exact sound.nodup
  · intro a b early
    rw [before_same nodes] at early
    have one := sound.once a b early
    rw [pending, counts, refuses]
    by_cases same : (id, other) = (a, b)
    · obtain ⟨rfl, rfl⟩ := Prod.mk.inj same
      rw [if_pos rfl, if_pos ((keys other id).mpr (.inr ⟨rfl, rfl⟩))]
      omega
    · have unmoved : ¬(b = other ∧ a = id) := fun is => same (by rw [is.1, is.2])
      have member : a ∈ (next.slaves b).slaves ↔ a ∈ (m.slaves b).slaves := by
        rw [keys]
        simp [unmoved]
      simp only [if_neg same, member, Nat.sub_zero]
      exact one
  · intro a b late
    rw [before_same nodes] at late
    have none_ := sound.never a b late
    rw [pending, counts, refuses]
    omega
  · intro a b early
    rw [before_same nodes] at early
    have opens := sound.opens a b early
    have unmoved : ¬(a = other ∧ b = id) := by
      rintro ⟨rfl, rfl⟩
      exact early.not_after before
    rw [keys, keys, counts]
    by_cases same : (id, other) = (a, b)
    · obtain ⟨rfl, rfl⟩ := Prod.mk.inj same
      refine iff_of_true (.inl (opens.mpr (.inl (by omega)))) (.inr (.inr ⟨rfl, rfl⟩))
    · have unmoved' : ¬(b = other ∧ a = id) := fun is => same (by rw [is.1, is.2])
      rw [if_neg same]
      simpa [unmoved, unmoved'] using opens
  · intro a b inside
    simp only [before_same nodes]
    rcases (keys a b).mp inside with old | ⟨rfl, rfl⟩
    · exact sound.members a b old
    · exact .inr before
  · intro b
    by_cases same : b = other
    · subst same
      constructor
      · rw [here, ← changed]
        simp only [before_same nodes]
        intro unready
        obtain ⟨idle, free, early⟩ := placed.early unready
        refine ⟨idle, free, fun a inside => ?_⟩
        rcases Finset.mem_insert.mp inside with rfl | old
        · exact before
        · exact early a old
      · rw [here, notices, nodes, Mesh.rank, nodes, ← changed]
        exact placed.waits
      · rw [here, ← changed]
        exact placed.quiet
      · rw [here, ← changed]
        exact placed.asked
      · rw [nodes]
        exact fun outside => absurd before.2.1 outside
      · rw [here, ← changed]
        simp only [before_same nodes]
        exact fun closed a early => Finset.mem_insert_of_mem (placed.closed closed a early)
      · rw [here, ← changed]
        exact placed.ended
    · exact (sound.placed b).same nodes (by rw [notices]) (there b same)

theorem count_pair (p q : Nat × Nat) : List.count q [p] = if q = p then 1 else 0 := by
  by_cases same : q = p
  · rw [same, List.count_singleton_self, if_pos rfl]
  · rw [if_neg same]
    exact List.count_eq_zero_of_not_mem fun inside => same (List.mem_singleton.mp inside)

theorem Slave.holding_opened {s : Slave} {coroutine : Bool} {other : Nat} (keys : Finset Nat)
    (opening : s.opening coroutine = some other) (b : Nat) :
    ({ s with opening := Function.update s.opening coroutine none, slaves := keys } : Slave).holding b =
      s.holding b - if b = other then 1 else 0 := by
  by_cases same : b = other
  · subst same
    cases coroutine
    · simp [Slave.holding, opening]
      omega
    · simp [Slave.holding, opening]
  · have unequal : ¬(some other = some b) := fun equal => same (Option.some.inj equal).symm
    cases coroutine
    · simp [Slave.holding, opening, unequal, same]
    · simp [Slave.holding, opening, unequal, same]

theorem Sound.of_opening (sound : Sound m) {id other : Nat} {coroutine : Bool}
    (opening : (m.slaves id).opening coroutine = some other) :
    (m.slaves id).holding other = 1 ∧ m.pending id other = 1 := by
  have one := sound.pending_le id other
  have some_ : 0 < (m.slaves id).holding other := by
    unfold Slave.holding
    cases coroutine
    · rw [if_pos opening]
      omega
    · rw [if_pos opening]
      omega
  unfold Mesh.pending at one ⊢
  omega

theorem Sound.opened (sound : Sound m) {id other : Nat} {coroutine : Bool} (flies : Bool)
    (opening : (m.slaves id).opening coroutine = some other) (nodes : next.slaveNode = m.slaveNode)
    (notices : next.notices = m.notices)
    (flights : next.flights = m.flights ++ if flies then [(id, other)] else [])
    (refused : next.refused = m.refused ++ if flies then [] else [(id, other)])
    (here : next.slaves id = { m.slaves id with
      opening := Function.update (m.slaves id).opening coroutine none
      slaves := if flies then insert other (m.slaves id).slaves else (m.slaves id).slaves })
    (there : ∀ b, b ≠ id → next.slaves b = m.slaves b) : Sound next := by
  obtain ⟨holding, some_⟩ := sound.of_opening opening
  obtain ⟨before, noFlight, noRefusal, -, absent⟩ := sound.of_pending (a := id) (b := other) (by omega)
  have placed := sound.placed id
  have different := before.ne
  have busy : ¬((m.slaves id).connectQueue).isSome := by
    intro unready
    cases opening.symm.trans ((placed.early unready).2.1 coroutine)
  have pending : ∀ a b, next.pending a b = m.pending a b - if (a, b) = (id, other) then 1 else 0 := by
    intro a b
    rw [Mesh.pending, Mesh.pending, notices]
    by_cases same : a = id
    · subst same
      rw [here, Slave.holding_opened _ opening]
      by_cases equal : b = other
      · subst equal
        simp only [if_true]
        omega
      · simp [equal]
    · rw [there a same]
      simp [same]
  have fly : ∀ a b, next.flights.count (a, b) =
      m.flights.count (a, b) + if flies ∧ (a, b) = (id, other) then 1 else 0 := by
    intro a b
    rw [flights, List.count_append]
    cases flies
    · simp
    · simp [count_pair]
  have refuse : ∀ a b, next.refused.count (a, b) =
      m.refused.count (a, b) + if flies = false ∧ (a, b) = (id, other) then 1 else 0 := by
    intro a b
    rw [refused, List.count_append]
    cases flies
    · simp [count_pair]
    · simp
  have keys : ∀ a b, b ∈ (next.slaves a).slaves ↔
      b ∈ (m.slaves a).slaves ∨ flies ∧ (a, b) = (id, other) := by
    intro a b
    by_cases same : a = id
    · subst same
      rw [here]
      cases flies
      · simp
      · simp [or_comm]
    · rw [there a same]
      simp [same]
  have late : ∀ a b, m.Before a b → ¬(b, a) = (id, other) := by
    rintro a b early same
    obtain ⟨rfl, rfl⟩ := Prod.mk.inj same
    exact early.not_after before
  constructor
  · rw [nodes]
    exact sound.nodup
  · intro a b early
    rw [before_same nodes] at early
    have one := sound.once a b early
    have member : a ∈ (next.slaves b).slaves ↔ a ∈ (m.slaves b).slaves := by
      rw [keys]
      simp only [late a b early, and_false, or_false]
    rw [pending, fly, refuse]
    simp only [member]
    by_cases same : (a, b) = (id, other)
    · obtain ⟨rfl, rfl⟩ := Prod.mk.inj same
      cases flies
      · simp only [if_true, and_self, reduceCtorEq, false_and, if_false]
        omega
      · simp only [if_true, and_self, reduceCtorEq, false_and, if_false]
        omega
    · simp only [same, and_false, if_false]
      omega
  · intro a b other_
    rw [before_same nodes] at other_
    have none_ := sound.never a b other_
    have same : ¬(a, b) = (id, other) := by
      intro same
      obtain ⟨rfl, rfl⟩ := Prod.mk.inj same
      exact other_ before
    rw [pending, fly, refuse]
    simp only [same, and_false, if_false]
    omega
  · intro a b early
    rw [before_same nodes] at early
    have opens := sound.opens a b early
    rw [keys, keys, fly]
    simp only [late a b early, and_false, or_false]
    by_cases same : (a, b) = (id, other)
    · obtain ⟨rfl, rfl⟩ := Prod.mk.inj same
      cases flies
      · simpa using opens
      · simp
    · simpa [same] using opens
  · intro a b inside
    simp only [before_same nodes]
    rcases (keys a b).mp inside with old | ⟨-, same⟩
    · exact sound.members a b old
    · obtain ⟨rfl, rfl⟩ := Prod.mk.inj same
      exact .inl before
  · intro b
    by_cases same : b = id
    · subst same
      constructor
      · rw [here]
        exact fun unready => absurd unready busy
      · rw [here, notices, nodes, Mesh.rank, nodes]
        exact placed.waits
      · rw [here]
        exact placed.quiet
      · rw [here]
        exact placed.asked
      · rw [nodes]
        exact fun outside => absurd before.1 outside
      · intro closed a early
        rw [here] at closed
        rw [before_same nodes] at early
        exact (keys b a).mpr (.inl (placed.closed closed a early))
      · rw [here]
        exact placed.ended
    · exact (sound.placed b).same nodes (by rw [notices]) (there b same)

theorem Sound.step (sound : Sound m) {action : Action} (taken : step m action = some next) :
    Sound next := by
  cases step_taken taken with
  | handshake zero new => exact sound.reportSlave new
  | @monitorMaster _ notice _ free first =>
    cases notice with
    | wait n => exact sound.read_wait first
    | connect other => exact sound.read_connect free first
  | listen started => exact sound.listen started
  | close listening woken => exact sound.close listening woken
  | ready closed woken queued => exact sound.ready closed woken queued
  | connect left free => exact sound.connect left free
  | opened opening =>
    unfold Mesh.opened
    split_ifs with listening
    · exact sound.opened true opening rfl rfl rfl (List.append_nil _).symm (setSlave_here _ _ _)
        fun b is => setSlave_other _ _ is
    · exact sound.opened false opening rfl rfl (List.append_nil _).symm rfl (setSlave_here _ _ _)
        fun b is => setSlave_other _ _ is
  | accept flight listening => exact sound.accept flight

end Pskynet.Cslave
