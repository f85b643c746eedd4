import Mathlib.Data.List.Perm.Basic
import Pskynet.Shared.Transition
import Pskynet.Shared.Words
import Pskynet.Multicast.Service

set_option autoImplicit false

namespace Pskynet.Multicast

structure Package where
  reference : Int32
  freed : Nat
  deriving DecidableEq

namespace Package

def pack : Package := { reference := 0, freed := 0 }

-- `mc.bind` raises for a package that is bound.
def bindrefer (package : Package) (ref : Int32) : Option Package :=
  if package.reference ≠ 0 then none else some { package with reference := ref }

def closelocal (package : Package) : Package :=
  { reference := package.reference - 1
    freed := if package.reference - 1 ≤ 0 then package.freed + 1 else package.freed }

def remote (package : Package) : Package := { package with freed := package.freed + 1 }

end Package

-- A message with a pointer to the package, on its way to a subscriber or, when it is `closing`,
-- in its `dispatch_subscribe`, which still has to call `mc.close`.
structure Delivery where
  pack : Nat
  subscriber : Nat
  closing : Bool
  deriving DecidableEq

-- Where `publish` stands: before the messages to `rest`, or between `mc.unpack` for the remote
-- nodes and the copy of the data.
inductive Task where
  | idle
  | sending (pack c : Nat) (rest : List Nat)
  | copying (pack : Nat)

-- A node's `multicastd`, the packages of the process and the messages that carry them. `stale`
-- records that a package was read after it had been released.
structure State where
  daemon : Multicastd
  task : Task
  packages : List Package
  deliveries : List Delivery
  stale : Bool

inductive Change where
  | new
  | del (c : Nat)
  | delr (c : Nat)
  | subr (node c : Nat)
  | usubr (node c : Nat)
  | sub (source c : Nat)
  | answered (source c : Nat) (gone : Bool)
  | usub (source c : Nat)

def Multicastd.change (m : Multicastd) : Change → Option Multicastd
  | .new => m.new.map Prod.fst
  | .del c => some (m.del c).1
  | .delr c => some (m.delr c)
  | .subr node c => (m.subr node c).map Prod.fst
  | .usubr node c => m.usubr node c
  | .sub source c =>
      if ¬m.isLocal source then none
      else if m.asks c then some m
      else m.join source c
  | .answered source c gone => if m.isLocal source then m.answered source c gone else none
  | .usub source c => (m.usub source c).map Prod.fst

inductive Action where
  | change (change : Change)
  | pub (c : Nat)
  | arrives (c : Nat)
  | redirect (k : Nat)
  | unpack
  | tostring
  | receive (i : Nat) (self : Option Bool) (unpackOk dispatchOk : Bool)
  | close (i : Nat)
  | drop (i : Nat)

namespace State

def start (harborId : Nat) : State where
  daemon := .start harborId
  task := .idle
  packages := []
  deliveries := []
  stale := false

def released (s : State) (pack : Nat) : Bool :=
  match s.packages[pack]? with
  | some package => 0 < package.freed
  | none => false

-- An error of `mc.bind` leaves the package as it is.
def publish (s : State) (c : Nat) : State :=
  match s.daemon.channel c with
  | none =>
      { s with packages := s.packages ++
          [((Package.pack.bindrefer 1).map Package.closelocal).getD Package.pack] }
  | some group =>
      match (s.daemon.channelN c).bind fun n => Package.pack.bindrefer (Int32.ofInt n) with
      | some package =>
          { s with
            packages := s.packages ++ [package]
            task := .sending s.packages.length c group }
      | none => { s with packages := s.packages ++ [Package.pack] }

def pub (s : State) (c : Nat) : State :=
  if c % 256 ≠ s.daemon.harborId then
    { s with packages := s.packages ++ [Package.pack.remote] }
  else s.publish c

end State

-- `self` is the entry of the channel in `dispatch` with its `__subscribe`. The answer is whether
-- `mc.close` is called, and whether the handler returns.
def dispatchSubscribe (self : Option Bool) (unpackOk dispatchOk : Bool) : Bool × Bool :=
  match self with
  | none => (true, false)
  | some true => if unpackOk then (true, dispatchOk) else (false, false)
  | some false => (true, true)

def step (s : State) : Action → Option State
  | .change change =>
      match s.task with
      | .idle => (s.daemon.change change).map fun daemon => { s with daemon := daemon }
      | _ => none
  | .pub c =>
      match s.task with
      | .idle => some (s.pub c)
      | _ => none
  | .arrives c =>
      match s.task with
      | .idle => some (s.publish c)
      | _ => none
  | .redirect k =>
      match s.task with
      | .sending pack c rest =>
          if k ∈ rest then
            some { s with
              task := .sending pack c (rest.erase k)
              deliveries := s.deliveries ++ [⟨pack, k, false⟩] }
          else none
      | _ => none
  | .unpack =>
      match s.task with
      | .sending pack c [] =>
          if s.daemon.channelRemote c = none then some { s with task := .idle }
          else some { s with
            task := .copying pack
            stale := s.stale || s.released pack }
      | _ => none
  | .tostring =>
      match s.task with
      | .copying pack => some { s with
          task := .idle
          stale := s.stale || s.released pack }
      | _ => none
  | .receive i self unpackOk dispatchOk =>
      match s.deliveries[i]? with
      | some ⟨pack, k, false⟩ =>
          let stale := s.stale || s.released pack
          if (dispatchSubscribe self unpackOk dispatchOk).1 then
            some { s with
              deliveries := s.deliveries.set i ⟨pack, k, true⟩
              stale := stale }
          else some { s with
            deliveries := s.deliveries.eraseIdx i
            stale := stale }
      | _ => none
  | .close i =>
      match s.deliveries[i]? with
      | some ⟨pack, _, true⟩ => some { s with
          packages := s.packages.modify pack Package.closelocal
          deliveries := s.deliveries.eraseIdx i }
      | _ => none
  | .drop i =>
      if i < s.deliveries.length then some { s with deliveries := s.deliveries.eraseIdx i }
      else none

def Task.toSend (pack : Nat) : Task → Nat
  | .sending other _ rest => if other = pack then rest.length else 0
  | _ => 0

def Task.package : Task → Option Nat
  | .idle => none
  | .sending pack _ _ => some pack
  | .copying pack => some pack

def State.outstanding (s : State) (pack : Nat) : Nat :=
  s.task.toSend pack + s.deliveries.countP (·.pack = pack)

structure Exact (s : State) : Prop where
  fresh : s.stale = false
  counted : ∀ (pack : Nat) (package : Package), s.packages[pack]? = some package →
    0 < s.outstanding pack →
    package.freed = 0 ∧ package.reference = Int32.ofNat (s.outstanding pack)
  released : ∀ (pack : Nat) (package : Package), s.packages[pack]? = some package →
    s.outstanding pack = 0 → package.freed = 1

-- A publication has a local subscriber, the daemon comes to the remote nodes while a delivery is
-- outstanding, and every delivery is handled by a service whose unpack function returns.
def Careful (s : State) : Action → Prop
  | .pub c => c % 256 = s.daemon.harborId → s.daemon.channel c ≠ some []
  | .arrives c => s.daemon.channel c ≠ some []
  | .unpack => ∀ pack c, s.task = .sending pack c [] → s.daemon.channelRemote c ≠ none →
      0 < s.outstanding pack
  | .tostring => ∀ pack, s.task = .copying pack → 0 < s.outstanding pack
  | .receive _ self unpackOk _ => self = some true → unpackOk = true
  | .drop _ => False
  | _ => True

structure Balanced (s : State) : Prop where
  daemon : s.daemon.Counted
  exactly : Exact s
  known : ∀ delivery ∈ s.deliveries, delivery.pack < s.packages.length
  task : ∀ pack, s.task.package = some pack → pack < s.packages.length
  bound : ∀ pack, s.outstanding pack ≤ 2 ^ 24

theorem start_balanced (harborId : Nat) : Balanced (.start harborId) := by
  refine ⟨Multicastd.start_counted harborId, ⟨rfl, ?_, ?_⟩, ?_, ?_, ?_⟩
  · intro pack package found
    cases found
  · intro pack package found
    cases found
  · intro delivery inside
    cases inside
  · intro pack is
    cases is
  · intro pack
    exact Nat.zero_le _

theorem Balanced.still {s t : State} (balanced : Balanced s) (daemon : t.daemon.Counted)
    (packages : t.packages = s.packages) (stale : t.stale = false)
    (same : ∀ pack, t.outstanding pack = s.outstanding pack)
    (known : ∀ delivery ∈ t.deliveries, delivery.pack < s.packages.length)
    (task : ∀ pack, t.task.package = some pack → pack < s.packages.length) : Balanced t := by
  refine ⟨daemon, ⟨stale, ?_, ?_⟩, ?_, ?_, ?_⟩
  · intro pack package found
    rw [packages] at found
    rw [same]
    exact balanced.exactly.counted pack package found
  · intro pack package found
    rw [packages] at found
    rw [same]
    exact balanced.exactly.released pack package found
  · rw [packages]
    exact known
  · rw [packages]
    exact task
  · intro pack
    rw [same]
    exact balanced.bound pack

theorem Balanced.change {s : State} {daemon : Multicastd} {change : Change}
    (balanced : Balanced s) (done : s.daemon.change change = some daemon) :
    Balanced { s with daemon := daemon } := by
  have counted : daemon.Counted := by
    cases change with
    | new =>
      obtain ⟨⟨m, c⟩, made, rfl⟩ := Option.map_eq_some_iff.mp done
      exact balanced.daemon.new made
    | del c => exact Option.some.inj done ▸ balanced.daemon.del c
    | delr c => exact Option.some.inj done ▸ balanced.daemon.unset c
    | subr node c =>
      obtain ⟨⟨m, gone⟩, made, rfl⟩ := Option.map_eq_some_iff.mp done
      exact balanced.daemon.subr made
    | usubr node c => exact balanced.daemon.usubr done
    | sub source c =>
      simp only [Multicastd.change] at done
      split_ifs at done with isLocal asks
      · exact Option.some.inj done ▸ balanced.daemon
      · exact balanced.daemon.join isLocal done
    | answered source c gone =>
      simp only [Multicastd.change] at done
      split_ifs at done with isLocal
      exact balanced.daemon.answered isLocal done
    | usub source c =>
      obtain ⟨⟨m, sent⟩, made, rfl⟩ := Option.map_eq_some_iff.mp done
      exact balanced.daemon.usub made
  exact balanced.still counted rfl balanced.exactly.fresh (fun _ => rfl) balanced.known
    balanced.task

theorem Balanced.outstanding_new {s : State} (balanced : Balanced s) :
    s.deliveries.countP (·.pack = s.packages.length) = 0 := by
  rw [List.countP_eq_zero]
  intro delivery inside same
  have known := balanced.known delivery inside
  rw [decide_eq_true_eq] at same
  omega

theorem Balanced.added {s t : State} (balanced : Balanced s) (idle : s.task = .idle)
    (package : Package) (rest : List Nat)
    (daemon : t.daemon = s.daemon) (packages : t.packages = s.packages ++ [package])
    (deliveries : t.deliveries = s.deliveries) (stale : t.stale = s.stale)
    (toSend : ∀ pack, t.task.toSend pack = if s.packages.length = pack then rest.length else 0)
    (task : ∀ pack, t.task.package = some pack → pack = s.packages.length)
    (few : rest.length ≤ 2 ^ 24)
    (counted : rest ≠ [] → package.freed = 0 ∧ package.reference = Int32.ofNat rest.length)
    (released : rest = [] → package.freed = 1) : Balanced t := by
  have older : ∀ pack, pack ≠ s.packages.length → t.outstanding pack = s.outstanding pack := by
    intro pack other
    rw [State.outstanding, State.outstanding, toSend, deliveries, idle, if_neg other.symm]
    rfl
  have last : t.outstanding s.packages.length = rest.length := by
    rw [State.outstanding, toSend, deliveries, if_pos rfl, balanced.outstanding_new,
      Nat.add_zero]
  have longer : t.packages.length = s.packages.length + 1 := by
    rw [packages, List.length_append, List.length_singleton]
  have lookup : ∀ pack found, t.packages[pack]? = some found →
      (pack ≠ s.packages.length ∧ s.packages[pack]? = some found) ∨
        (pack = s.packages.length ∧ found = package) := by
    intro pack found is
    rw [packages] at is
    by_cases new_ : pack = s.packages.length
    · rw [new_, List.getElem?_concat_length, Option.some.injEq] at is
      exact .inr ⟨new_, is.symm⟩
    · have bound := (List.getElem?_eq_some_iff.mp is).1
      rw [List.length_append, List.length_singleton] at bound
      rw [List.getElem?_append_left (by omega)] at is
      exact .inl ⟨new_, is⟩
  refine ⟨daemon ▸ balanced.daemon, ⟨stale.trans balanced.exactly.fresh, ?_, ?_⟩, ?_, ?_, ?_⟩
  · intro pack found is pos
    rcases lookup pack found is with ⟨other, before⟩ | ⟨rfl, rfl⟩
    · rw [older pack other] at pos ⊢
      exact balanced.exactly.counted pack found before pos
    · rw [last] at pos ⊢
      exact counted (List.ne_nil_of_length_pos pos)
  · intro pack found is zero
    rcases lookup pack found is with ⟨other, before⟩ | ⟨rfl, rfl⟩
    · rw [older pack other] at zero
      exact balanced.exactly.released pack found before zero
    · rw [last] at zero
      exact released (List.eq_nil_of_length_eq_zero zero)
  · intro delivery inside
    rw [deliveries] at inside
    have known := balanced.known delivery inside
    omega
  · intro pack is
    have new_ := task pack is
    omega
  · intro pack
    by_cases new_ : pack = s.packages.length
    · rw [new_, last]
      exact few
    · rw [older pack new_]
      exact balanced.bound pack

theorem Balanced.publish {s : State} (balanced : Balanced s) (idle : s.task = .idle) (c : Nat)
    (subscribed : s.daemon.channel c ≠ some []) : Balanced (s.publish c) := by
  have nothing : ∀ pack, s.task.toSend pack =
      if s.packages.length = pack then ([] : List Nat).length else 0 := by
    intro pack
    rw [idle, List.length_nil, ite_self]
    rfl
  have none_ : ∀ pack, s.task.package = some pack → pack = s.packages.length := by
    intro pack is
    rw [idle] at is
    cases is
  unfold State.publish
  cases found : s.daemon.channel c with
  | none =>
    exact balanced.added idle _ [] rfl rfl rfl rfl nothing none_ (Nat.zero_le _)
      (fun some_ => absurd rfl some_) fun _ => rfl
  | some group =>
    have count := balanced.daemon.count c group found
    simp only [count, Option.bind_some]
    refine balanced.added idle _ group rfl rfl rfl rfl (fun _ => rfl) ?_
      (balanced.daemon.bound found) (fun _ => ⟨rfl, ?_⟩) ?_
    · intro pack is
      exact (Option.some.inj is).symm
    · exact Int32.ofInt_eq_ofNat
    · intro empty
      exact absurd (empty ▸ found) subscribed

theorem publish_unsubscribed {s : State} (balanced : Balanced s) (c : Nat)
    (empty : s.daemon.channel c = some []) : ¬Exact (s.publish c) := by
  have count := balanced.daemon.count c [] empty
  intro exactly
  have last : (s.publish c).packages[s.packages.length]? = some ⟨0, 0⟩ := by
    simp only [State.publish, empty, count, Option.bind_some]
    exact List.getElem?_concat_length
  have alone : (s.publish c).outstanding s.packages.length = 0 := by
    simp only [State.publish, empty, count, Option.bind_some]
    exact (congrArg (_ + ·) balanced.outstanding_new).trans (by simp [Package.pack, Package.bindrefer, Task.toSend])
  exact absurd (exactly.released _ _ last alone) Nat.zero_ne_one

theorem countP_eraseIdx {deliveries : List Delivery} {i : Nat} {delivery : Delivery}
    (found : deliveries[i]? = some delivery) (p : Delivery → Bool) :
    (if p delivery then 1 else 0) + (deliveries.eraseIdx i).countP p = deliveries.countP p := by
  obtain ⟨inside, is⟩ := List.getElem?_eq_some_iff.mp found
  rw [← (List.getElem_cons_eraseIdx_perm inside).countP_eq p, is, List.countP_cons, Nat.add_comm]

theorem Balanced.unreleased {s : State} (balanced : Balanced s) {pack : Nat}
    (pos : 0 < s.outstanding pack) : s.released pack = false := by
  unfold State.released
  cases found : s.packages[pack]? with
  | none => rfl
  | some package =>
    have freed := (balanced.exactly.counted pack package found pos).1
    simp [freed]

theorem Balanced.released {s : State} (balanced : Balanced s) {pack : Nat}
    (known : pack < s.packages.length) (zero : s.outstanding pack = 0) :
    s.released pack = true := by
  have found := List.getElem?_eq_getElem known
  have freed := balanced.exactly.released pack _ found zero
  simp [State.released, found, freed]

theorem Balanced.of_delivery {s : State} {i : Nat} {delivery : Delivery}
    (found : s.deliveries[i]? = some delivery) : 0 < s.outstanding delivery.pack := by
  have one : 0 < s.deliveries.countP (·.pack = delivery.pack) :=
    List.countP_pos_iff.mpr ⟨delivery, List.mem_of_getElem? found, decide_eq_true rfl⟩
  unfold State.outstanding
  omega

theorem outstanding_eraseIdx {s t : State} {i : Nat} {delivery : Delivery}
    (found : s.deliveries[i]? = some delivery) (task : t.task = s.task)
    (deliveries : t.deliveries = s.deliveries.eraseIdx i) (pack : Nat) :
    (if delivery.pack = pack then 1 else 0) + t.outstanding pack = s.outstanding pack := by
  have counted := countP_eraseIdx found (·.pack = pack)
  simp only [decide_eq_true_eq] at counted
  unfold State.outstanding
  rw [task, deliveries, ← counted]
  omega

theorem Balanced.lost {s t : State} (balanced : Balanced s) {i : Nat} {delivery : Delivery}
    (found : s.deliveries[i]? = some delivery) (packages : t.packages = s.packages)
    (task : t.task = s.task) (deliveries : t.deliveries = s.deliveries.eraseIdx i) :
    ¬Exact t := by
  intro exactly
  have known := balanced.known delivery (List.mem_of_getElem? found)
  have fewer := outstanding_eraseIdx found task deliveries delivery.pack
  rw [if_pos rfl] at fewer
  have bound := balanced.bound delivery.pack
  obtain ⟨package, here⟩ : ∃ package, s.packages[delivery.pack]? = some package :=
    ⟨_, List.getElem?_eq_getElem known⟩
  obtain ⟨freed, before⟩ := balanced.exactly.counted _ _ here (by omega)
  rw [← packages] at here
  rcases Nat.eq_zero_or_pos (t.outstanding delivery.pack) with zero | pos
  · have after := exactly.released _ _ here zero
    omega
  · have after := (exactly.counted _ _ here pos).2
    rw [before] at after
    have same := Words.counter_inj _ _ (by omega) (by omega) after
    omega

theorem closelocal_counted (n : Nat) (small : n < 2 ^ 31) :
    (Package.closelocal ⟨Int32.ofNat (n + 1), 0⟩) = ⟨Int32.ofNat n, if n = 0 then 1 else 0⟩ := by
  have low : Int32.ofNat n ≤ 0 ↔ n = 0 := by
    rw [← Int32.not_lt, Words.counter_pos_iff n small]
    omega
  simp only [Package.closelocal, Words.counter_pred, low]

theorem Balanced.close {s : State} (balanced : Balanced s) {i : Nat} {delivery : Delivery}
    (found : s.deliveries[i]? = some delivery) :
    Balanced { s with
      packages := s.packages.modify delivery.pack Package.closelocal
      deliveries := s.deliveries.eraseIdx i } := by
  let t : State := { s with
    packages := s.packages.modify delivery.pack Package.closelocal
    deliveries := s.deliveries.eraseIdx i }
  have moved : ∀ pack, (if delivery.pack = pack then 1 else 0) + t.outstanding pack =
      s.outstanding pack := outstanding_eraseIdx found rfl rfl
  have lookup : ∀ pack package, t.packages[pack]? = some package →
      (delivery.pack ≠ pack ∧ s.packages[pack]? = some package) ∨
        (delivery.pack = pack ∧
          package = ⟨Int32.ofNat (t.outstanding pack), if t.outstanding pack = 0 then 1 else 0⟩) := by
    intro pack package is
    rw [List.getElem?_modify, Option.map_eq_map] at is
    by_cases same : delivery.pack = pack
    · right
      refine ⟨same, ?_⟩
      simp only [if_pos same] at is
      obtain ⟨old, here, rfl⟩ := Option.map_eq_some_iff.mp is
      have more := moved pack
      rw [if_pos same] at more
      have bound := balanced.bound pack
      obtain ⟨freed, reference⟩ := balanced.exactly.counted pack old here (by omega)
      have shape : old = ⟨Int32.ofNat (t.outstanding pack + 1), 0⟩ := by
        rw [Nat.add_comm, more, ← reference, ← freed]
      rw [shape, closelocal_counted _ (by omega)]
    · left
      simp only [if_neg same, Option.map_id_fun'] at is
      exact ⟨same, is⟩
  refine ⟨balanced.daemon, ⟨balanced.exactly.fresh, ?_, ?_⟩, ?_, ?_, ?_⟩
  · intro pack package is pos
    have more := moved pack
    rcases lookup pack package is with ⟨other, before⟩ | ⟨same, rfl⟩
    · rw [if_neg other, Nat.zero_add] at more
      have counted := balanced.exactly.counted pack package before (more ▸ pos)
      rw [← more] at counted
      exact counted
    · exact ⟨if_neg (Nat.ne_of_gt pos), rfl⟩
  · intro pack package is zero
    have more := moved pack
    rcases lookup pack package is with ⟨other, before⟩ | ⟨same, rfl⟩
    · rw [if_neg other, Nat.zero_add] at more
      exact balanced.exactly.released pack package before (more ▸ zero)
    · exact if_pos zero
  · intro other inside
    rw [List.length_modify]
    exact balanced.known other (List.mem_of_mem_eraseIdx inside)
  · intro pack is
    rw [List.length_modify]
    exact balanced.task pack is
  · intro pack
    have more := moved pack
    have bound := balanced.bound pack
    change t.outstanding pack ≤ 2 ^ 24
    omega

theorem pub_careful {s : State} (balanced : Balanced s) (idle : s.task = .idle) (c : Nat) :
    (Careful s (.pub c) → Balanced (s.pub c)) ∧ (Exact (s.pub c) → Careful s (.pub c)) := by
  unfold State.pub
  split_ifs with far
  · refine ⟨fun _ => ?_, fun _ own => absurd own far⟩
    refine balanced.added idle _ [] rfl rfl rfl rfl ?_ ?_ (Nat.zero_le _)
      (fun some_ => absurd rfl some_) fun _ => rfl
    · intro pack
      rw [idle, List.length_nil, ite_self]
      rfl
    · intro pack is
      rw [idle] at is
      cases is
  · constructor
    · intro careful
      exact balanced.publish idle c (careful (not_not.mp far))
    · intro exactly own empty
      exact publish_unsubscribed balanced c empty exactly

theorem Balanced.redirect {s : State} (balanced : Balanced s) {pack c k : Nat} {rest : List Nat}
    (task : s.task = .sending pack c rest) (inside : k ∈ rest) :
    Balanced { s with
      task := .sending pack c (rest.erase k)
      deliveries := s.deliveries ++ [⟨pack, k, false⟩] } := by
  have known := balanced.task pack (by rw [task]; rfl)
  refine balanced.still balanced.daemon rfl balanced.exactly.fresh ?_ ?_ ?_
  · intro other
    have pos := List.length_pos_of_mem inside
    simp only [State.outstanding, task, Task.toSend, List.countP_append, List.countP_singleton,
      List.length_erase_of_mem inside, decide_eq_true_eq]
    split_ifs <;> omega
  · intro delivery member
    rcases List.mem_append.mp member with before | last
    · exact balanced.known delivery before
    · rw [List.mem_singleton.mp last]
      exact known
  · intro other is
    exact Option.some.inj is ▸ known

theorem unpack_careful {s t : State} (balanced : Balanced s) (taken : step s .unpack = some t) :
    (Careful s .unpack → Balanced t) ∧ (Exact t → Careful s .unpack) := by
  simp only [step] at taken
  split at taken
  · rename_i pack c task
    have known := balanced.task pack (by rw [task]; rfl)
    split_ifs at taken with remote
    · rw [Option.some.injEq] at taken
      subst taken
      refine ⟨fun _ => ?_, ?_⟩
      · refine balanced.still balanced.daemon rfl balanced.exactly.fresh ?_ balanced.known ?_
        · intro other
          simp [State.outstanding, task, Task.toSend]
        · intro other is
          cases is
      · intro _ other d same some_
        rw [task, Task.sending.injEq] at same
        exact absurd (same.2.1 ▸ remote) some_
    · rw [Option.some.injEq] at taken
      subst taken
      constructor
      · intro careful
        have unreleased := balanced.unreleased (careful pack c task remote)
        refine balanced.still balanced.daemon rfl ?_ ?_ balanced.known ?_
        · simp [unreleased, balanced.exactly.fresh]
        · intro other
          simp [State.outstanding, task, Task.toSend]
        · intro other is
          exact Option.some.inj is ▸ known
      · intro exactly other d same _
        rw [task, Task.sending.injEq] at same
        by_contra zero
        have released := balanced.released known (Nat.eq_zero_of_not_pos (same.1 ▸ zero))
        have fresh := exactly.fresh
        simp [released] at fresh
  · contradiction

theorem tostring_careful {s t : State} (balanced : Balanced s)
    (taken : step s .tostring = some t) :
    (Careful s .tostring → Balanced t) ∧ (Exact t → Careful s .tostring) := by
  simp only [step] at taken
  split at taken
  · rename_i pack task
    have known := balanced.task pack (by rw [task]; rfl)
    rw [Option.some.injEq] at taken
    subst taken
    constructor
    · intro careful
      have unreleased := balanced.unreleased (careful pack task)
      refine balanced.still balanced.daemon rfl ?_ ?_ balanced.known ?_
      · simp [unreleased, balanced.exactly.fresh]
      · intro other
        simp [State.outstanding, task, Task.toSend]
      · intro other is
        cases is
    · intro exactly other same
      rw [task, Task.copying.injEq] at same
      by_contra zero
      have released := balanced.released known (Nat.eq_zero_of_not_pos (same ▸ zero))
      have fresh := exactly.fresh
      simp [released] at fresh
  · contradiction

theorem dispatchSubscribe_closes (self : Option Bool) (unpackOk dispatchOk : Bool) :
    (dispatchSubscribe self unpackOk dispatchOk).1 = true ↔ (self = some true → unpackOk = true) := by
  cases self with
  | none => simp [dispatchSubscribe]
  | some subscribed =>
    cases subscribed <;> cases unpackOk <;> simp [dispatchSubscribe]

theorem receive_careful {s t : State} (balanced : Balanced s) (i : Nat) (self : Option Bool)
    (unpackOk dispatchOk : Bool) (taken : step s (.receive i self unpackOk dispatchOk) = some t) :
    (Careful s (.receive i self unpackOk dispatchOk) → Balanced t) ∧
      (Exact t → Careful s (.receive i self unpackOk dispatchOk)) := by
  simp only [step] at taken
  split at taken
  · rename_i pack k found
    have known := balanced.known _ (List.mem_of_getElem? found)
    have unreleased : s.released pack = false := balanced.unreleased (Balanced.of_delivery found)
    simp only [Careful, ← dispatchSubscribe_closes self unpackOk dispatchOk]
    split_ifs at taken with closes
    · refine ⟨fun _ => ?_, fun _ => closes⟩
      rw [Option.some.injEq] at taken
      subst taken
      refine balanced.still balanced.daemon rfl ?_ ?_ ?_ balanced.task
      · simp [unreleased, balanced.exactly.fresh]
      · intro other
        obtain ⟨inside, is⟩ := List.getElem?_eq_some_iff.mp found
        have pos : pack = other → 0 < s.deliveries.countP (·.pack = other) := by
          intro same
          exact List.countP_pos_iff.mpr
            ⟨_, List.mem_of_getElem? found, decide_eq_true same⟩
        simp only [State.outstanding, List.countP_set inside, is, decide_eq_true_eq]
        split_ifs with same
        · have one := pos same
          omega
        · omega
      · intro delivery member
        rcases List.mem_or_eq_of_mem_set member with before | is
        · exact balanced.known delivery before
        · rw [is]
          exact known
    · refine ⟨fun careful => absurd careful closes, fun exactly => ?_⟩
      rw [Option.some.injEq] at taken
      subst taken
      exact absurd exactly (balanced.lost found rfl rfl rfl)
  · contradiction

theorem step_careful {s t : State} (balanced : Balanced s) (action : Action)
    (taken : step s action = some t) :
    (Careful s action → Balanced t) ∧ (Exact t → Careful s action) := by
  cases action with
  | change change =>
    simp only [step] at taken
    split at taken
    · obtain ⟨daemon, done, rfl⟩ := Option.map_eq_some_iff.mp taken
      exact ⟨fun _ => balanced.change done, fun _ => trivial⟩
    · contradiction
  | pub c =>
    simp only [step] at taken
    split at taken
    · rename_i idle
      exact Option.some.inj taken ▸ pub_careful balanced idle c
    · contradiction
  | arrives c =>
    simp only [step] at taken
    split at taken
    · rename_i idle
      rw [Option.some.injEq] at taken
      subst taken
      exact ⟨fun careful => balanced.publish idle c careful,
        fun exactly empty => publish_unsubscribed balanced c empty exactly⟩
    · contradiction
  | redirect k =>
    simp only [step] at taken
    split at taken
    · rename_i pack c rest task
      split_ifs at taken with inside
      exact ⟨fun _ => Option.some.inj taken ▸ balanced.redirect task inside, fun _ => trivial⟩
    · contradiction
  | unpack => exact unpack_careful balanced taken
  | tostring => exact tostring_careful balanced taken
  | receive i self unpackOk dispatchOk =>
    exact receive_careful balanced i self unpackOk dispatchOk taken
  | close i =>
    simp only [step] at taken
    split at taken
    · rename_i pack k found
      exact ⟨fun _ => Option.some.inj taken ▸ balanced.close found, fun _ => trivial⟩
    · contradiction
  | drop i =>
    simp only [step] at taken
    split_ifs at taken with inside
    refine ⟨False.elim, fun exactly => ?_⟩
    rw [Option.some.injEq] at taken
    subst taken
    exact absurd exactly (balanced.lost (List.getElem?_eq_getElem inside) rfl rfl rfl)

theorem packages_released_once (harborId : Nat) (actions : List Action) (final : State)
    (reached : Transition.run step (.start harborId) actions = some final) :
    Transition.Along step (fun s action => ∀ t, step s action = some t → Exact t)
        (.start harborId) actions ↔
      Transition.Along step Careful (.start harborId) actions := by
  refine (Transition.Along.iff Balanced ?_ ?_ actions _ final (start_balanced harborId)
    reached).symm
  · intro s action t balanced careful taken
    exact (step_careful balanced action taken).1 careful
  · intro s action t balanced taken
    obtain ⟨keeps, only⟩ := step_careful balanced action taken
    constructor
    · intro careful next done
      rw [taken, Option.some.injEq] at done
      exact done ▸ (keeps careful).exactly
    · intro exactly
      exact only (exactly t taken)

def subscribed : List Action := [.change .new, .change (.sub 0x01000005 1)]

theorem one_delivery_released :
    Transition.Along step (fun s action => ∀ t, step s action = some t → Exact t) (.start 1)
      (subscribed ++ [.pub 1, .redirect 0x01000005, .unpack, .receive 0 (some true) true false,
        .close 0]) := by
  refine (packages_released_once 1 _ _ rfl).mpr ⟨trivial, trivial, ?_, trivial, ?_, ?_, trivial,
    trivial⟩
  · intro _ empty
    cases empty
  · intro pack c _ remote
    exact absurd rfl remote
  · intro _
    rfl

theorem packages_miscounted :
    (∃ s, Transition.run step (.start 1) [.change .new, .pub 1] = some s ∧ ¬Exact s) ∧
    (∃ s, Transition.run step (.start 1) (subscribed ++ [.change (.subr 2 1), .pub 1,
      .redirect 0x01000005, .receive 0 (some true) true true, .close 0, .unpack]) = some s ∧
        s.stale = true ∧ ¬Exact s) ∧
    ∃ s, Transition.run step (.start 1) (subscribed ++ [.pub 1, .redirect 0x01000005,
      .receive 0 (some true) false true, .unpack]) = some s ∧ ¬Exact s := by
  refine ⟨⟨_, rfl, ?_⟩, ⟨_, rfl, rfl, ?_⟩, ⟨_, rfl, ?_⟩⟩
  · intro exactly
    exact absurd (exactly.released 0 _ rfl rfl) Nat.zero_ne_one
  · intro exactly
    exact Bool.noConfusion exactly.fresh
  · intro exactly
    exact absurd (exactly.released 0 _ rfl rfl) Nat.zero_ne_one

end Pskynet.Multicast
