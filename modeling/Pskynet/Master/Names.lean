import Pskynet.Seri.RoundTrip
import Pskynet.Shared.Mailbox
import Pskynet.Shared.Transition

set_option autoImplicit false

namespace Pskynet.Master

open Lua

abbrev Name := List UInt8

abbrev Address := Int64

inductive Report where
  | handshake
  | register (name : Name) (address : Address)
  | query (name : Name)
  deriving DecidableEq

structure Announcement where
  name : Name
  address : Address
  deriving DecidableEq

structure Slave where
  globalname : Name → Option Address
  queryname : Name → List Nat

-- The master, the slaves and what is written on their connections. `answers` are the responses to
-- `QUERYNAME` by slave and session.
structure Network where
  globalName : Name → Option Address
  slaveNode : List Nat
  connected : List Nat
  reports : List (Nat × Report)
  announcements : List (Nat × Announcement)
  slaves : Nat → Slave
  answers : List (Nat × Nat × Option Address)

-- `pack_package` does not raise.
def packs (values : List Scalar) : Prop := (values.map Seri.scalarSize).sum ≤ 255

instance (values : List Scalar) : Decidable (packs values) := inferInstanceAs (Decidable (_ ≤ _))

theorem packs_iff (values : List Scalar)
    (strings : ∀ str, Scalar.string str ∈ values → str.length < 2 ^ 31) :
    (∃ bytes, Seri.luaseriPack (values.map .scalar) = .ok bytes ∧ bytes.length ≤ 255) ↔
      packs values := by
  have packable : ∀ v ∈ values.map LuaValue.scalar, Seri.Packable Seri.maxDepth v := by
    intro v inside
    obtain ⟨value, member, rfl⟩ := List.mem_map.mp inside
    refine .scalar _ _ ?_
    intro str is
    exact strings str (is ▸ member)
  have size : (Seri.encodeAll (values.map .scalar)).length =
      (values.map Seri.scalarSize).sum := by
    simp only [Seri.encodeAll, List.length_flatMap, Seri.length_encode, List.map_map]
    rfl
  have fits : ∀ v ∈ values.map LuaValue.scalar,
      Seri.packSlots (Seri.maxDepth + 1) v ≤ Lua.minStack := by
    intro v inside
    obtain ⟨value, -, rfl⟩ := List.mem_map.mp inside
    exact Nat.zero_le _
  obtain ⟨packed, failed⟩ := Seri.luaseriPack_eq _ packable fits
  unfold packs
  rw [← size]
  constructor
  · rintro ⟨bytes, done, short⟩
    by_cases small : (Seri.encodeAll (values.map .scalar)).length < 2 ^ 31
    · cases (packed small).symm.trans done
      exact short
    · cases (failed (not_lt.mp small)).symm.trans done
  · intro short
    exact ⟨_, packed (by omega), short⟩

-- `"R"` and `"N"`, of which the messages have the same length, and `"Q"`.
def packsName (name : Name) (address : Address) : Prop :=
  packs [.string [82], .string name, .integer address]

instance (name : Name) (address : Address) : Decidable (packsName name address) :=
  inferInstanceAs (Decidable (packs _))

def packsQuery (name : Name) : Prop := packs [.string [81], .string name]

instance (name : Name) : Decidable (packsQuery name) := inferInstanceAs (Decidable (packs _))

namespace Network

def start : Network where
  globalName := fun _ => none
  slaveNode := []
  connected := []
  reports := []
  announcements := []
  slaves := fun _ => ⟨fun _ => none, fun _ => []⟩
  answers := []

def write (s : Network) (slave : Nat) (report : Report) : Network :=
  { s with reports := s.reports ++ [(slave, report)] }

def setSlave (s : Network) (id : Nat) (slave : Slave) : Network :=
  { s with slaves := Function.update s.slaves id slave }

-- A slave learns an address and answers the queries for it (`response_name`).
def learn (s : Network) (id : Nat) (name : Name) (address : Address) : Network :=
  let slave := s.slaves id
  { s.setSlave id
      { globalname := Function.update slave.globalname name (some address)
        queryname := Function.update slave.queryname name [] } with
    answers := s.answers ++ (slave.queryname name).map fun session => (id, session, some address) }

-- `harbor.REGISTER`. The assertion fails for a name that is known.
def register (s : Network) (id : Nat) (name : Name) (handle : Address) : Network :=
  if ((s.slaves id).globalname name).isSome then s
  else
    let after := s.learn id name handle
    if packsName name handle then after.write id (.register name handle) else after

-- `harbor.QUERYNAME` of a name that is not local.
def queryname (s : Network) (id : Nat) (name : Name) (session : Nat) : Network :=
  let slave := s.slaves id
  match slave.globalname name with
  | some address => { s with answers := s.answers ++ [(id, session, some address)] }
  | none =>
      s.setSlave id
        { slave with
          queryname := Function.update slave.queryname name (slave.queryname name ++ [session]) }

def monitorHarbor (s : Network) (id : Nat) (name : Name) : Network :=
  match (s.slaves id).globalname name with
  | some _ => s
  | none => if packsQuery name then s.write id (.query name) else s

def announce (s : Network) (slaves : List Nat) (name : Name) (address : Address) : Network :=
  { s with announcements := s.announcements ++ slaves.map fun id => (id, ⟨name, address⟩) }

def store (s : Network) (name : Name) (address : Address) : Network :=
  if (s.globalName name).isSome then s
  else { s with globalName := Function.update s.globalName name (some address) }

def dispatchSlave (s : Network) (id : Nat) : Report → Network
  | .handshake => { s with slaveNode := s.slaveNode ++ [id] }
  | .register name address => (s.store name address).announce s.slaveNode name address
  | .query name =>
      match s.globalName name with
      | some address => s.announce [id] name address
      | none => s

end Network

inductive Action where
  | connect (slave : Nat)
  | register (slave : Nat) (name : Name) (handle : Address)
  | queryname (slave : Nat) (name : Name) (session : Nat)
  | query (slave : Nat) (name : Name)
  | dispatchSlave (slave : Nat)
  | monitorMaster (slave : Nat)

def step (s : Network) : Action → Option Network
  | .connect id =>
      if id ∈ s.connected then none
      else some ({ s with connected := s.connected ++ [id] }.write id .handshake)
  | .register id name handle =>
      if id ∈ s.connected then some (s.register id name handle) else none
  | .queryname id name session =>
      if id ∈ s.connected then some (s.queryname id name session) else none
  | .query id name => if id ∈ s.connected then some (s.monitorHarbor id name) else none
  | .dispatchSlave id =>
      (Mailbox.take id s.reports).map fun taken =>
        { s with reports := taken.2 }.dispatchSlave id taken.1
  | .monitorMaster id =>
      (Mailbox.take id s.announcements).map fun taken =>
        { s with announcements := taken.2 }.learn id taken.1.name taken.1.address

structure Agrees (s : Network) : Prop where
  announced : ∀ slave announcement, (slave, announcement) ∈ s.announcements →
    s.globalName announcement.name = some announcement.address
  settled : s.reports = [] → s.announcements = [] → ∀ slave name address,
    (s.slaves slave).globalname name = some address → s.globalName name = some address

def Matches (s : Network) : Option (Report × List (Nat × Report)) → Prop
  | some (.register name address, _) =>
      s.globalName name = none ∨ s.globalName name = some address
  | some (.handshake, _) | some (.query _, _) | none => True

instance (s : Network) : (taken : Option (Report × List (Nat × Report))) → Decidable (Matches s taken)
  | some (.register _ _, _) => inferInstanceAs (Decidable (_ ∨ _))
  | some (.handshake, _) | some (.query _, _) | none => .isTrue trivial

def Single (s : Network) : Action → Prop
  | .register slave name handle =>
      (s.slaves slave).globalname name = none → packsName name handle
  | .dispatchSlave slave => Matches s (Mailbox.take slave s.reports)
  | _ => True

instance (s : Network) : (action : Action) → Decidable (Single s action)
  | .register _ _ _ => inferInstanceAs (Decidable (_ → _))
  | .dispatchSlave slave => inferInstanceAs (Decidable (Matches s (Mailbox.take slave s.reports)))
  | .connect _ | .queryname _ _ _ | .query _ _ | .monitorMaster _ => .isTrue trivial

structure Tracked (s : Network) : Prop where
  announced : ∀ slave announcement, (slave, announcement) ∈ s.announcements →
    s.globalName announcement.name = some announcement.address
  known : ∀ slave name address, (s.slaves slave).globalname name = some address →
    s.globalName name = some address ∨ (slave, Report.register name address) ∈ s.reports

variable {s t : Network}

theorem Tracked.agrees (tracked : Tracked s) : Agrees s where
  announced := tracked.announced
  settled := by
    intro quiet _ slave name address known
    rcases tracked.known slave name address known with stored | sent
    · exact stored
    · rw [quiet] at sent
      cases sent

theorem start_tracked : Tracked .start where
  announced := fun _ _ inside => by cases inside
  known := fun _ _ _ known => by cases known

theorem learn_globalname (s : Network) (id slave : Nat) (name other : Name) (address : Address) :
    ((s.learn id name address).slaves slave).globalname other =
      if slave = id ∧ other = name then some address else (s.slaves slave).globalname other := by
  by_cases here : slave = id
  · by_cases same : other = name
    · simp [Network.learn, Network.setSlave, here, same]
    · simp [Network.learn, Network.setSlave, here, same]
  · simp [Network.learn, Network.setSlave, here]

theorem Tracked.write (tracked : Tracked s) (slave : Nat) (report : Report) :
    Tracked (s.write slave report) where
  announced := tracked.announced
  known := by
    intro other name address known
    exact (tracked.known other name address known).imp_right (List.mem_append_left _)

theorem Tracked.register (tracked : Tracked s) (id : Nat) (name : Name) (handle : Address)
    (fits : (s.slaves id).globalname name = none → packsName name handle) :
    Tracked (s.register id name handle) := by
  unfold Network.register
  split_ifs with old packed
  · exact tracked
  · refine ⟨tracked.announced, ?_⟩
    intro slave other address known
    have learned := learn_globalname s id slave name other handle
    rw [show ((s.learn id name handle).write id (.register name handle)).slaves slave =
      (s.learn id name handle).slaves slave from rfl, learned] at known
    split_ifs at known with here
    · cases known
      rw [here.1, here.2]
      exact .inr (List.mem_append_right _ (List.mem_singleton_self _))
    · exact (tracked.known slave other address known).imp_right (List.mem_append_left _)
  · refine absurd (fits ?_) packed
    exact Option.not_isSome_iff_eq_none.mp old

theorem Tracked.queryname (tracked : Tracked s) (id : Nat) (name : Name) (session : Nat) :
    Tracked (s.queryname id name session) := by
  unfold Network.queryname
  cases known : (s.slaves id).globalname name with
  | some address =>
    simp only [known]
    exact ⟨tracked.announced, tracked.known⟩
  | none =>
    simp only [known]
    refine ⟨tracked.announced, ?_⟩
    intro slave other address there
    refine tracked.known slave other address ?_
    by_cases here : slave = id
    · subst here
      simpa [Network.setSlave] using there
    · simpa [Network.setSlave, here] using there

theorem Tracked.monitorHarbor (tracked : Tracked s) (id : Nat) (name : Name) :
    Tracked (s.monitorHarbor id name) := by
  unfold Network.monitorHarbor
  cases (s.slaves id).globalname name with
  | some address => exact tracked
  | none =>
    simp only
    split_ifs
    · exact tracked.write id _
    · exact tracked

theorem Tracked.announce (tracked : Tracked s) (slaves : List Nat) {name : Name} {address : Address}
    (stored : s.globalName name = some address) : Tracked (s.announce slaves name address) where
  announced := by
    intro slave announcement inside
    rcases List.mem_append.mp inside with old | new_
    · exact tracked.announced slave announcement old
    · obtain ⟨id, _, is⟩ := List.mem_map.mp new_
      cases is
      exact stored
  known := tracked.known

theorem Tracked.store (tracked : Tracked s) (name : Name) (address : Address) :
    Tracked (s.store name address) := by
  unfold Network.store
  split_ifs with old
  · exact tracked
  · have kept : ∀ other found, s.globalName other = some found →
        Function.update s.globalName name (some address) other = some found := by
      intro other found stored
      have apart : other ≠ name := by
        rintro rfl
        rw [stored] at old
        exact old rfl
      rw [Function.update_of_ne apart]
      exact stored
    refine ⟨?_, ?_⟩
    · intro slave announcement inside
      exact kept _ _ (tracked.announced slave announcement inside)
    · intro slave other found known
      exact (tracked.known slave other found known).imp_left (kept other found)

theorem store_stored {name : Name} {address : Address}
    (single : s.globalName name = none ∨ s.globalName name = some address) :
    (s.store name address).globalName name = some address := by
  unfold Network.store
  rcases single with free | same
  · simp [free]
  · simp [same]

theorem Tracked.dispatchSlave (tracked : Tracked s) {id : Nat} {report : Report}
    {rest : List (Nat × Report)} (taken : Mailbox.take id s.reports = some (report, rest))
    (single : Single s (.dispatchSlave id)) :
    Tracked ({ s with reports := rest }.dispatchSlave id report) := by
  have perm := Mailbox.take_perm taken
  have others : (∀ name address, report ≠ .register name address) →
      Tracked { s with reports := rest } := by
    intro other
    refine ⟨tracked.announced, ?_⟩
    intro slave name address known
    refine (tracked.known slave name address known).imp_right ?_
    intro sent
    rcases List.mem_cons.mp (perm.mem_iff.mp sent) with same | later
    · cases same
      exact absurd rfl (other name address)
    · exact later
  cases report with
  | handshake =>
    have next := others fun _ _ is => by cases is
    exact ⟨next.announced, next.known⟩
  | query name =>
    have next := others fun _ _ is => by cases is
    simp only [Network.dispatchSlave]
    cases stored : s.globalName name with
    | none => exact next
    | some address => exact next.announce [id] stored
  | register name address =>
    simp only [Single, Matches, taken] at single
    have stored : (s.store name address).globalName name = some address := store_stored single
    have next := tracked.store name address
    refine Tracked.announce (s := { s with reports := rest }.store name address) ?_ _ ?_
    · have same : { s with reports := rest }.store name address =
          { s.store name address with reports := rest } := by
        unfold Network.store
        split_ifs <;> rfl
      have reports : (s.store name address).reports = s.reports := by
        unfold Network.store
        split_ifs <;> rfl
      rw [same]
      refine ⟨next.announced, ?_⟩
      intro slave other found known
      rcases next.known slave other found known with there | sent
      · exact .inl there
      · rw [reports] at sent
        rcases List.mem_cons.mp (perm.mem_iff.mp sent) with here | later
        · cases here
          exact .inl stored
        · exact .inr later
    · have same : ({ s with reports := rest }.store name address).globalName =
          (s.store name address).globalName := by
        unfold Network.store
        split_ifs <;> rfl
      rw [same]
      exact stored

theorem Tracked.monitorMaster (tracked : Tracked s) {id : Nat} {announcement : Announcement}
    {rest : List (Nat × Announcement)}
    (taken : Mailbox.take id s.announcements = some (announcement, rest)) :
    Tracked ({ s with announcements := rest }.learn id announcement.name announcement.address) := by
  have perm := Mailbox.take_perm taken
  refine ⟨?_, ?_⟩
  · intro slave other inside
    exact tracked.announced slave other (perm.mem_iff.mpr (List.mem_cons_of_mem _ inside))
  · intro slave other address known
    rw [learn_globalname] at known
    split_ifs at known with here
    · cases known
      rw [here.2]
      exact .inl (tracked.announced id announcement (perm.mem_iff.mpr List.mem_cons_self))
    · exact tracked.known slave other address known

theorem step_tracked {action : Action} (tracked : Tracked s) (single : Single s action)
    (taken : step s action = some t) : Tracked t := by
  cases action with
  | connect id =>
    simp only [step] at taken
    split_ifs at taken
    rw [← Option.some.inj taken]
    have next : Tracked { s with connected := s.connected ++ [id] } :=
      ⟨tracked.announced, tracked.known⟩
    exact next.write id _
  | register id name handle =>
    simp only [step] at taken
    split_ifs at taken
    exact Option.some.inj taken ▸ tracked.register id name handle single
  | queryname id name session =>
    simp only [step] at taken
    split_ifs at taken
    exact Option.some.inj taken ▸ tracked.queryname id name session
  | query id name =>
    simp only [step] at taken
    split_ifs at taken
    exact Option.some.inj taken ▸ tracked.monitorHarbor id name
  | dispatchSlave id =>
    obtain ⟨⟨report, rest⟩, found, is⟩ := Option.map_eq_some_iff.mp taken
    exact is ▸ tracked.dispatchSlave found single
  | monitorMaster id =>
    obtain ⟨⟨announcement, rest⟩, found, is⟩ := Option.map_eq_some_iff.mp taken
    exact is ▸ tracked.monitorMaster found

theorem names_agree (s : Network) (path : Transition.Path step Single .start s) : Agrees s :=
  (path.invariant Tracked (fun _ _ _ tracked single taken => step_tracked tracked single taken)
    start_tracked).agrees

def oneRegistration : List Action :=
  [.connect 1, .connect 2, .dispatchSlave 1, .dispatchSlave 2, .register 1 [97] 5, .query 2 [97],
    .dispatchSlave 2, .dispatchSlave 1, .monitorMaster 1, .monitorMaster 2]

theorem one_registration_agrees :
    ∃ s, Transition.run step .start oneRegistration = some s ∧ Agrees s :=
  ⟨_, rfl, names_agree _ (.of_run oneRegistration (.refl _) (by decide) rfl)⟩

theorem conflict_announced {id : Nat} {name : Name} {address other : Address}
    {rest : List (Nat × Report)}
    (taken : Mailbox.take id s.reports = some (.register name address, rest))
    (stored : s.globalName name = some other) (apart : other ≠ address) (joined : s.slaveNode ≠ [])
    (goes : step s (.dispatchSlave id) = some t) : ¬Agrees t := by
  intro agrees
  simp only [step, taken, Option.map_some, Option.some.injEq] at goes
  obtain ⟨slave, later, is⟩ := List.exists_cons_of_ne_nil joined
  have kept : t.globalName name = some other := by
    rw [← goes]
    simp [Network.dispatchSlave, Network.announce, Network.store, stored]
  have sent : (slave, ⟨name, address⟩) ∈ t.announcements := by
    rw [← goes]
    simp [Network.dispatchSlave, Network.announce, Network.store, stored, is]
  have same := agrees.announced slave _ sent
  rw [kept] at same
  exact apart (Option.some.inj same)

def twoRegistrations : List Action :=
  [.connect 1, .connect 2, .dispatchSlave 1, .dispatchSlave 2, .register 1 [97] 5,
    .register 2 [97] 6, .dispatchSlave 1, .dispatchSlave 2, .monitorMaster 1, .monitorMaster 1,
    .monitorMaster 2, .monitorMaster 2]

theorem two_registrations_disagree :
    ¬∀ (actions : List Action) (s : Network),
      Transition.run step .start actions = some s → Agrees s := by
  intro always
  have same := (always twoRegistrations _ rfl).settled rfl rfl 1 [97] 6 rfl
  revert same
  decide

end Pskynet.Master
