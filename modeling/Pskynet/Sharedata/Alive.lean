import Pskynet.Sharedata.Balance
import Pskynet.Sharedata.Clients

set_option autoImplicit false

namespace Pskynet.Sharedata

open Lua

def queried (obj : Nat) (letter : Nat × Reply) : Bool :=
  match letter.2 with
  | .queried _ other => other = obj
  | _ => false

def confirming (obj : Nat) (letter : Nat × Request) : Bool :=
  match letter.2 with
  | .confirm other => other = obj
  | _ => false

def System.claims (s : System) (obj : Nat) : Nat :=
  s.replies.countP (queried obj) + s.requests.countP (confirming obj) +
    s.boxes.countP fun box => box.2 = obj

structure Sound (s : System) : Prop where
  balanced : Balanced s.server s.claims
  carried : ∀ client root obj, (client, Reply.monitored root (some obj)) ∈ s.replies →
    obj < s.server.created ∧ obj ∉ s.server.deleted
  held : ∀ client obj, s.kept client obj ≤ s.boxes.count (client, obj)

variable {host : Host} {s t : System} {server : State} {client root obj : Nat} {name : Scalar}

def Later (before after : State) : Prop :=
  before.created ≤ after.created ∧ after.deleted = before.deleted

theorem Later.trans {a b c : State} (one : Later a b) (two : Later b c) : Later a c :=
  ⟨one.1.trans two.1, two.2.trans one.2⟩

theorem put_later {s after : State} {entry : Option Entry} {count : Option Count}
    (ok : s.put name entry count = .ok after) :
    after.created = s.created ∧ after.deleted = s.deleted := by
  unfold State.put at ok
  cases is : toKey name with
  | error text =>
    rw [is] at ok
    cases ok
  | ok key =>
    rw [is] at ok
    cases ok
    exact ⟨rfl, rfl⟩

theorem set_later (s : State) (name : Scalar) (entry : Option Entry) (count : Option Count) :
    (s.set name entry count).created = s.created ∧ (s.set name entry count).deleted = s.deleted := by
  unfold State.set
  cases ok : s.put name entry count with
  | error text => exact ⟨rfl, rfl⟩
  | ok after => exact put_later ok

theorem new_later (host : Host) (s : State) (name : Scalar) (t : LuaValue) :
    Later s (s.new host name t).1 ∧
      ((s.new host name t).2 = .ok () → s.created < (s.new host name t).1.created) := by
  unfold State.new
  cases build host name t with
  | error fault => exact ⟨⟨le_rfl, rfl⟩, fun ok => by cases ok⟩
  | ok table =>
    simp only [State.newobj]
    split_ifs with known
    · exact ⟨⟨le_rfl, rfl⟩, fun ok => by cases ok⟩
    · cases newconf host.levels table.1 table.2 with
      | error fault => exact ⟨⟨le_rfl, rfl⟩, fun ok => by cases ok⟩
      | ok conf =>
        simp only
        cases ok : s.create.put name (some ⟨s.created, []⟩) (some ⟨0, 16⟩) with
        | error text => exact ⟨⟨Nat.le_succ _, rfl⟩, fun ok => by cases ok⟩
        | ok after =>
          obtain ⟨created, deleted⟩ := put_later ok
          have more : s.created < after.created := by
            rw [created]
            exact Nat.lt_succ_self _
          exact ⟨⟨more.le, deleted⟩, fun _ => more⟩

theorem update_later (host : Host) (s : State) (name : Scalar) (t : LuaValue) :
    Later s (s.update host name t).1 ∧
      ∀ watch obj, (s.update host name t).2 = .ok (watch, obj) →
        s.created ≤ obj ∧ obj < (s.update host name t).1.created := by
  unfold State.update
  cases found : s.get name with
  | none =>
    have made := new_later host s name t
    simp only
    generalize s.new host name t = outcome at made
    obtain ⟨after, fault | ok⟩ := outcome
    · exact ⟨made.1, fun _ _ ok => by cases ok⟩
    · refine ⟨made.1, ?_⟩
      intro watch obj is
      cases is
      exact ⟨le_rfl, made.2 rfl⟩
  | some v =>
    obtain ⟨created, deleted⟩ := set_later (s.retire v.obj) name none none
    have made := new_later host ((s.retire v.obj).set name none none) name t
    simp only
    generalize ((s.retire v.obj).set name none none).new host name t = outcome at made
    have before : Later s ((s.retire v.obj).set name none none) := ⟨created.ge, deleted⟩
    obtain ⟨after, fault | ok⟩ := outcome
    · exact ⟨before.trans made.1, fun _ _ ok => by cases ok⟩
    · refine ⟨before.trans made.1, ?_⟩
      intro watch obj is
      cases is
      exact ⟨created.ge, made.2 rfl⟩

theorem delete_later (s : State) (name : Scalar) : Later s (s.delete name).1 := by
  unfold State.delete
  cases found : s.get name with
  | none => exact ⟨le_rfl, rfl⟩
  | some v =>
    obtain ⟨created, deleted⟩ := set_later s name none none
    simp only
    split_ifs with known
    · exact ⟨created.ge, deleted⟩
    · exact ⟨created.ge, deleted⟩

theorem monitor_later (s : State) (name : Scalar) (obj : Nat) (watch : Watch) :
    Later s (s.monitor name obj watch).1 := by
  unfold State.monitor
  cases found : s.get name with
  | none => exact ⟨le_rfl, rfl⟩
  | some v =>
    simp only
    split_ifs with other
    · exact ⟨le_rfl, rfl⟩
    · obtain ⟨created, deleted⟩ :=
        set_later s name (some { v with watch := v.watch ++ [watch] }) ((s.count name).map State.counted)
      exact ⟨created.ge, deleted⟩

theorem Sound.serve (sound : Sound s) (balanced : Balanced server s.claims)
    (later : Later s.server server) : Sound { s with server := server } where
  balanced := balanced
  carried := by
    intro client root obj inside
    obtain ⟨small, alive⟩ := sound.carried client root obj inside
    exact ⟨lt_of_lt_of_le small later.1, later.2 ▸ alive⟩
  held := sound.held

theorem Sound.new (sound : Sound s) (host : Host) (name : Scalar) (t : LuaValue) :
    Sound { s with server := (s.server.new host name t).1 } :=
  sound.serve (sound.balanced.new host name t) (new_later host s.server name t).1

theorem Sound.respond (sound : Sound s) (watch : List Watch) (answer : Option Nat)
    (alive : ∀ obj, answer = some obj → obj < s.server.created ∧ obj ∉ s.server.deleted) :
    Sound (s.respond watch answer) where
  balanced := by
    have same : (s.respond watch answer).claims = s.claims := by
      funext obj
      have none_ : (watch.map fun w => (w.client, Reply.monitored w.root answer)).countP
          (queried obj) = 0 := by
        rw [List.countP_eq_zero]
        intro letter inside
        obtain ⟨w, _, rfl⟩ := List.mem_map.mp inside
        simp [queried]
      simp only [System.claims, System.respond, List.countP_append, none_, Nat.add_zero]
    exact same ▸ sound.balanced
  carried := by
    intro client root obj inside
    rcases List.mem_append.mp inside with old | new_
    · exact sound.carried client root obj old
    · obtain ⟨w, _, is⟩ := List.mem_map.mp new_
      cases is
      exact alive obj rfl
  held := sound.held

theorem Sound.update (sound : Sound s) (host : Host) (name : Scalar) (t : LuaValue) :
    Sound (s.update host name t) := by
  obtain ⟨later, fresh⟩ := update_later host s.server name t
  have balanced := sound.balanced.update host name t
  unfold System.update
  generalize s.server.update host name t = outcome at later fresh balanced
  obtain ⟨server, fault | ⟨watch, obj⟩⟩ := outcome
  · exact sound.serve balanced later
  · refine (sound.serve balanced later).respond watch (some obj) ?_
    intro other is
    cases is
    obtain ⟨past, small⟩ := fresh watch obj rfl
    have unused := (sound.balanced.fresh obj past).2.2
    exact ⟨small, later.2 ▸ unused⟩

theorem Sound.delete (sound : Sound s) (name : Scalar) : Sound (s.delete name) := by
  have later := delete_later s.server name
  have balanced := sound.balanced.delete name
  unfold System.delete
  generalize s.server.delete name = outcome at later balanced
  obtain ⟨server, fault | watch⟩ := outcome
  · exact sound.serve balanced later
  · exact (sound.serve balanced later).respond watch none (fun _ is => by cases is)

theorem Sound.request (sound : Sound s) (client : Nat) (message : Request)
    (unclaimed : ∀ obj, message ≠ .confirm obj) : Sound (s.request client message) where
  balanced := by
    have same : (s.request client message).claims = s.claims := by
      funext obj
      cases message with
      | confirm other => exact absurd rfl (unclaimed other)
      | query | monitor => simp [System.claims, System.request, confirming]
    exact same ▸ sound.balanced
  carried := sound.carried
  held := sound.held

theorem Sound.reply (sound : Sound s) (client : Nat) (message : Reply)
    (unclaimed : ∀ name obj, message ≠ .queried name obj)
    (alive : ∀ root obj, message = .monitored root (some obj) →
      obj < s.server.created ∧ obj ∉ s.server.deleted) : Sound (s.reply client message) where
  balanced := by
    have same : (s.reply client message).claims = s.claims := by
      funext obj
      cases message with
      | queried name other => exact absurd rfl (unclaimed name other)
      | monitored | raised => simp [System.claims, System.reply, queried]
    exact same ▸ sound.balanced
  carried := by
    intro from_ root obj inside
    rcases List.mem_append.mp inside with old | new_
    · exact sound.carried from_ root obj old
    · cases List.mem_singleton.mp new_
      exact alive root obj rfl
  held := sound.held

theorem Sound.take_request (sound : Sound s) {message : Request} {rest : List (Nat × Request)}
    (taken : Mailbox.take client s.requests = some (message, rest))
    (unclaimed : ∀ obj, message ≠ .confirm obj) : Sound { s with requests := rest } where
  balanced := by
    have same : ({ s with requests := rest } : System).claims = s.claims := by
      funext obj
      have perm := (Mailbox.take_perm taken).countP_eq (confirming obj)
      cases message with
      | confirm other => exact absurd rfl (unclaimed other)
      | query | monitor =>
        simp only [System.claims]
        rw [perm]
        simp [confirming]
    exact same ▸ sound.balanced
  carried := sound.carried
  held := sound.held

theorem Sound.take_reply (sound : Sound s) {message : Reply} {rest : List (Nat × Reply)}
    (taken : Mailbox.take client s.replies = some (message, rest))
    (unclaimed : ∀ name obj, message ≠ .queried name obj) : Sound { s with replies := rest } where
  balanced := by
    have same : ({ s with replies := rest } : System).claims = s.claims := by
      funext obj
      have perm := (Mailbox.take_perm taken).countP_eq (queried obj)
      cases message with
      | queried name other => exact absurd rfl (unclaimed name other)
      | monitored | raised =>
        simp only [System.claims]
        rw [perm]
        simp [queried]
    exact same ▸ sound.balanced
  carried := by
    intro from_ root obj inside
    have perm := Mailbox.take_perm taken
    exact sound.carried from_ root obj (perm.mem_iff.mpr (List.mem_cons_of_mem _ inside))
  held := sound.held

theorem claims_update (claims : Nat → Nat) (obj : Nat) {f : Nat → Nat} {n : Nat}
    (here : f obj = n) (others : ∀ other, other ≠ obj → f other = claims other) :
    f = Function.update claims obj n := by
  funext other
  by_cases same : other = obj
  · rw [same, Function.update_self, here]
  · rw [Function.update_of_ne same, others other same]

theorem Sound.query (sound : Sound s) (client : Nat) (name : Scalar) :
    Sound (s.handle client (.query name)) := by
  simp only [System.handle, State.query]
  cases found : s.server.get name with
  | none => exact sound.reply client _ (fun _ _ is => by cases is) (fun _ _ is => by cases is)
  | some v =>
    obtain ⟨key, _, there⟩ := get_eq_some found
    obtain ⟨small, alive⟩ := sound.balanced.pooled_created there
    refine ⟨?_, ?_, sound.held⟩
    · have same := claims_update s.claims v.obj
        (f := ({ s with server := s.server.incref v.obj }.reply client
          (.queried name v.obj)).claims) (n := s.claims v.obj + 1) ?_ ?_
      · rw [same]
        exact sound.balanced.incref small alive
      · simp [System.claims, System.reply, queried]
        omega
      · intro other apart
        simp [System.claims, System.reply, queried, Ne.symm apart]
    · intro from_ root obj inside
      rcases List.mem_append.mp inside with old | new_
      · exact sound.carried from_ root obj old
      · cases List.mem_singleton.mp new_

theorem Sound.monitor (sound : Sound s) (client root : Nat) (name : Scalar) (obj : Nat) :
    Sound (s.handle client (.monitor root name obj)) := by
  have later := monitor_later s.server name obj ⟨client, root⟩
  have balanced := sound.balanced.monitor name obj ⟨client, root⟩
  have current : ∀ answer, (s.server.monitor name obj ⟨client, root⟩).2 = .ok (some answer) →
      answer < s.server.created ∧ answer ∉ s.server.deleted := by
    intro answer is
    unfold State.monitor at is
    cases found : s.server.get name with
    | none =>
      rw [found] at is
      cases is
    | some v =>
      rw [found] at is
      simp only at is
      split_ifs at is with other
      · obtain ⟨key, _, there⟩ := get_eq_some found
        cases is
        exact sound.balanced.pooled_created there
      · cases is
  simp only [System.handle]
  generalize s.server.monitor name obj ⟨client, root⟩ = outcome at later balanced current
  obtain ⟨server, fault | answer⟩ := outcome
  · exact (sound.serve balanced later).reply client _ (fun _ _ is => by cases is)
      (fun _ _ is => by cases is)
  · cases answer with
    | none => exact sound.serve balanced later
    | some answer =>
      refine (sound.serve balanced later).reply client _ (fun _ _ is => by cases is) ?_
      intro root' obj' is
      cases is
      obtain ⟨small, alive⟩ := current answer rfl
      exact ⟨lt_of_lt_of_le small later.1, later.2 ▸ alive⟩

theorem Sound.confirm (sound : Sound s) {rest : List (Nat × Request)}
    (taken : Mailbox.take client s.requests = some (.confirm obj, rest)) :
    Sound ({ s with requests := rest }.handle client (.confirm obj)) := by
  have perm := Mailbox.take_perm taken
  have claimed : s.claims obj = ({ s with requests := rest } : System).claims obj + 1 := by
    simp only [System.claims]
    rw [perm.countP_eq]
    simp [confirming]
    omega
  refine ⟨?_, ?_, sound.held⟩
  · have same := claims_update s.claims obj
      (f := ({ s with requests := rest } : System).claims) (n := s.claims obj - 1) (by omega) ?_
    · have next : Balanced (s.server.confirm obj) _ := sound.balanced.confirm (by omega)
      rw [← same] at next
      exact next
    · intro other apart
      simp only [System.claims]
      rw [perm.countP_eq]
      simp [confirming, Ne.symm apart]
  · intro from_ root obj inside
    have later : ∀ server : State, server.created = s.server.created →
        server.deleted = s.server.deleted →
        obj < server.created ∧ obj ∉ server.deleted := by
      intro server created deleted
      rw [created, deleted]
      exact sound.carried from_ root obj inside
    simp only [System.handle, State.confirm]
    split_ifs
    · exact later _ rfl rfl
    · exact later _ rfl rfl

theorem Sound.box (sound : Sound s) (client : Nat) (small : obj < s.server.created)
    (alive : obj ∉ s.server.deleted) : Sound (s.box client obj) where
  balanced := by
    have same := claims_update s.claims obj (f := (s.box client obj).claims)
      (n := s.claims obj + 1) ?_ ?_
    · rw [same]
      exact sound.balanced.incref small alive
    · simp [System.claims, System.box]
      omega
    · intro other apart
      simp [System.claims, System.box, Ne.symm apart]
  carried := sound.carried
  held := by
    intro from_ other
    have before := sound.held from_ other
    have more : s.boxes.count (from_, other) ≤ (s.box client obj).boxes.count (from_, other) := by
      simp [System.box, List.count_append]
    exact before.trans more

theorem sum_set {A : Type} (f : A → Nat) (l : List A) (i : Nat) (a b : A) (at_ : l[i]? = some a) :
    ((l.set i b).map f).sum + f a = (l.map f).sum + f b := by
  induction l generalizing i with
  | nil => cases at_
  | cons head rest ih =>
    cases i with
    | zero =>
      cases at_
      simp only [List.set_cons_zero, List.map_cons, List.sum_cons]
      omega
    | succ i =>
      have later := ih i at_
      simp only [List.set_cons_succ, List.map_cons, List.sum_cons]
      omega

theorem root_eq {r : Root} (is : s.root client root = some r) :
    (s.roots client)[root]? = some (some r) :=
  Option.join_eq_some_iff.mp is

theorem Sound.setRoot {r : Root} {new_ : Option Root} (sound : Sound s) (is : s.root client root = some r)
    (spare : ∀ obj, keeps new_ obj ≤ keeps (some r) obj +
      (s.boxes.count (client, obj) - s.kept client obj)) :
    Sound (s.setRoot client root new_) where
  balanced := sound.balanced
  carried := sound.carried
  held := by
    intro from_ obj
    have before := sound.held from_ obj
    by_cases own : from_ = client
    · subst own
      have changed := sum_set (fun root => keeps root obj) _ _ _ new_ (root_eq is)
      have room := spare obj
      simp only [System.kept, System.setRoot, Function.update_self] at changed before room ⊢
      omega
    · have same : (s.setRoot client root new_).kept from_ obj = s.kept from_ obj := by
        simp [System.kept, System.setRoot, Function.update_of_ne own]
      exact same ▸ before

theorem Sound.finish (sound : Sound s) (client root : Nat) : Sound (s.finish client root) := by
  unfold System.finish
  cases is : s.root client root with
  | none => exact sound
  | some r =>
    refine sound.setRoot is ?_
    intro obj
    simp [keeps]

theorem Sound.access (sound : Sound s) (client root : Nat) : Sound (s.access client root) := by
  unfold System.access
  cases is : s.root client root with
  | none => exact sound
  | some r =>
    cases update : r.update with
    | none =>
      simp only [update]
      exact sound
    | some obj =>
      simp only [update]
      split_ifs
      · refine sound.setRoot is ?_
        intro other
        simp only [keeps, update, Option.some.injEq, reduceCtorEq, if_false]
        omega
      · exact sound

theorem Sound.updateRoot (sound : Sound s) (client root : Nat) (small : obj < s.server.created)
    (alive : obj ∉ s.server.deleted) : Sound (s.updateRoot client root obj) := by
  unfold System.updateRoot
  cases is : s.root client root with
  | none => exact sound
  | some r =>
    simp only
    split_ifs
    · exact (sound.box client small alive).finish client root
    · refine Sound.request (Sound.setRoot (sound.box client small alive) is ?_) client _
        (fun _ is => by cases is)
      intro other
      have before := sound.held client other
      have boxed : (s.box client obj).boxes.count (client, other) =
          s.boxes.count (client, other) + if obj = other then 1 else 0 := by
        simp [System.box, List.count_append, List.count_singleton]
      have same : (s.box client obj).kept client other = s.kept client other := rfl
      rw [boxed, same]
      simp only [keeps, Option.some.injEq]
      split_ifs <;> omega
    · exact sound.finish client root

theorem queried_claimed {rest : List (Nat × Reply)}
    (taken : Mailbox.take client s.replies = some (.queried name obj, rest)) (other : Nat) :
    s.claims other = ({ s with replies := rest } : System).claims other +
      if obj = other then 1 else 0 := by
  simp only [System.claims]
  rw [(Mailbox.take_perm taken).countP_eq]
  by_cases same : obj = other
  · simp [queried, same]
    omega
  · simp [queried, same]

theorem Sound.queried (sound : Sound s) {rest : List (Nat × Reply)}
    (taken : Mailbox.take client s.replies = some (.queried name obj, rest)) :
    Sound ({ s with replies := rest }.resume client (.queried name obj)) := by
  have claimed : 0 < s.claims obj := by
    have moved := queried_claimed taken obj
    rw [if_pos rfl] at moved
    omega
  have small := sound.balanced.created_of_claimed claimed
  have alive := sound.balanced.not_deleted claimed
  refine ⟨?_, ?_, ?_⟩
  · have same := claims_update s.claims obj
      (f := ({ s with replies := rest }.resume client (.queried name obj)).claims)
      (n := s.claims obj + 1) ?_ ?_
    · rw [same]
      exact sound.balanced.incref small alive
    · rw [queried_claimed taken obj, if_pos rfl]
      simp [System.claims, System.resume, System.request, System.addRoot, System.box, confirming]
      omega
    · intro other apart
      rw [queried_claimed taken other, if_neg (Ne.symm apart)]
      simp [System.claims, System.resume, System.request, System.addRoot, System.box, confirming,
        Ne.symm apart]
  · intro from_ root other inside
    have perm := Mailbox.take_perm taken
    exact sound.carried from_ root other (perm.mem_iff.mpr (List.mem_cons_of_mem _ inside))
  · intro from_ other
    have before := sound.held from_ other
    by_cases own : from_ = client
    · subst own
      let r : Root := { name := name, obj := obj, update := none, monitored := true }
      have one : keeps (some r) other = [(from_, obj)].count (from_, other) := by
        by_cases same : obj = other
        · simp [r, keeps, same]
        · simp [r, keeps, same]
      simp only [System.kept, System.resume, System.request, System.addRoot, System.box,
        Function.update_self, List.map_append, List.sum_append, List.count_append,
        List.map_singleton, List.sum_singleton] at before ⊢
      exact Nat.add_le_add before one.le
    · simp only [System.kept, System.resume, System.request, System.addRoot, System.box,
        Function.update_of_ne own, List.count_append] at before ⊢
      omega

theorem Sound.release (sound : Sound s)
    (garbage : s.kept client obj < s.boxes.count (client, obj)) :
    Sound { s with
      server := s.server.decref obj
      boxes := s.boxes.erase (client, obj) } := by
  have inside : (client, obj) ∈ s.boxes := List.count_pos_iff.mp (by omega)
  have perm := List.perm_cons_erase inside
  refine ⟨?_, ?_, ?_⟩
  · have claimed : ∀ other, s.claims other =
        ({ s with boxes := s.boxes.erase (client, obj) } : System).claims other +
          if obj = other then 1 else 0 := by
      intro other
      simp only [System.claims]
      rw [perm.countP_eq]
      by_cases same : obj = other
      · simp [same]
        omega
      · simp [same]
    have here := claimed obj
    rw [if_pos rfl] at here
    have same := claims_update s.claims obj
      (f := ({ s with boxes := s.boxes.erase (client, obj) } : System).claims)
      (n := s.claims obj - 1) (by omega) ?_
    · have next : Balanced (s.server.decref obj) _ := sound.balanced.decref (by omega)
      rw [← same] at next
      exact next
    · intro other apart
      have there := claimed other
      rw [if_neg (Ne.symm apart)] at there
      omega
  · exact sound.carried
  · intro from_ other
    have before := sound.held from_ other
    change s.kept from_ other ≤ (s.boxes.erase (client, obj)).count (from_, other)
    by_cases same : (from_, other) = (client, obj)
    · cases same
      rw [List.count_erase_self]
      omega
    · rw [List.count_erase_of_ne same]
      exact before

theorem step_sound {action : Action} (sound : Sound s) (allow : Uncarried s action)
    (taken : step host s action = some t) : Sound t := by
  cases action with
  | new name value => exact Option.some.inj taken ▸ sound.new host name value
  | update name value => exact Option.some.inj taken ▸ sound.update host name value
  | delete name => exact Option.some.inj taken ▸ sound.delete name
  | ask client name =>
    exact Option.some.inj taken ▸ sound.request client _ (fun _ is => by cases is)
  | serve client =>
    obtain ⟨⟨message, rest⟩, found, is⟩ := Option.map_eq_some_iff.mp taken
    rw [← is]
    cases message with
    | query name => exact (sound.take_request found (fun _ is => by cases is)).query client name
    | confirm obj => exact sound.confirm found
    | monitor root name obj =>
      exact (sound.take_request found (fun _ is => by cases is)).monitor client root name obj
  | receive client =>
    obtain ⟨⟨message, rest⟩, found, is⟩ := Option.map_eq_some_iff.mp taken
    rw [← is]
    cases message with
    | queried name obj => exact sound.queried found
    | monitored root obj =>
      have next := sound.take_reply found (fun _ _ is => by cases is)
      cases obj with
      | none => exact next.finish client root
      | some obj =>
        have inside := (Mailbox.take_perm found).mem_iff.mpr List.mem_cons_self
        obtain ⟨small, alive⟩ := sound.carried client root obj inside
        exact next.updateRoot client root small alive
    | raised root =>
      have next := sound.take_reply found (fun _ _ is => by cases is)
      cases root with
      | none => exact next
      | some root => exact next.finish client root
  | watch client root =>
    simp only [step] at taken
    split_ifs at taken with inside
    rw [← Option.some.inj taken]
    have next : Sound { s with forked := s.forked.erase (client, root) } :=
      ⟨sound.balanced, sound.carried, sound.held⟩
    unfold System.watch
    split
    · exact next
    · exact next.request client _ (fun _ is => by cases is)
  | access client root => exact Option.some.inj taken ▸ sound.access client root
  | drop client root =>
    simp only [step] at taken
    cases is : s.root client root with
    | none =>
      rw [is] at taken
      cases taken
    | some r =>
      rw [is] at taken
      simp only at taken
      split_ifs at taken
      exact Option.some.inj taken ▸ sound.setRoot is (fun _ => Nat.zero_le _)
  | release client obj =>
    simp only [step] at taken
    split_ifs at taken with garbage
    exact Option.some.inj taken ▸ sound.release garbage
  | collect =>
    rw [← Option.some.inj taken]
    refine ⟨sound.balanced.collectobj, ?_, sound.held⟩
    intro client root obj inside
    obtain ⟨small, alive⟩ := sound.carried client root obj inside
    refine ⟨?_, ?_⟩
    · have same : s.server.collectobj.created = s.server.created := by
        unfold State.collectobj
        generalize List.range s.server.created = objects
        generalize s.server = server
        induction objects generalizing server with
        | nil => rfl
        | cons first rest ih =>
          refine (ih (server.collectone first)).trans ?_
          unfold State.collectone
          split_ifs <;> rfl
      exact same ▸ small
    · intro gone
      rcases collectobj_deleted gone with old | collectable
      · exact alive old
      · exact allow obj collectable client root inside

theorem Sound.used_alive (sound : Sound s) {action : Action} (uses : used s action = some obj) :
    obj ∉ s.server.deleted := by
  cases action with
  | receive client =>
    obtain ⟨⟨message, rest⟩, found, uses⟩ := Option.bind_eq_some_iff.mp uses
    cases message with
    | queried name other =>
      cases uses
      have moved := queried_claimed found obj
      rw [if_pos rfl] at moved
      exact sound.balanced.not_deleted (by omega)
    | monitored root answer =>
      cases answer with
      | none => cases uses
      | some other =>
        obtain ⟨r, _, uses⟩ := Option.bind_eq_some_iff.mp uses
        split_ifs at uses
        cases uses
        have inside := (Mailbox.take_perm found).mem_iff.mpr List.mem_cons_self
        exact (sound.carried client root obj inside).2
    | raised root => cases uses
  | access client root =>
    obtain ⟨r, is, uses⟩ := Option.bind_eq_some_iff.mp uses
    split_ifs at uses
    -- The update keeps a box, and a box is a claim.
    have kept : 0 < s.kept client obj := by
      have inside := List.mem_of_getElem? (root_eq is)
      have part := List.single_le_sum (l := (s.roots client).map fun root => keeps root obj)
        (fun _ _ => Nat.zero_le _) _ (List.mem_map_of_mem inside)
      have one : keeps (some r) obj = (if r.obj = obj then 1 else 0) + 1 := by
        simp only [keeps, uses, if_true]
      rw [one] at part
      exact lt_of_lt_of_le (by omega) part
    have boxed : (client, obj) ∈ s.boxes :=
      List.count_pos_iff.mp (lt_of_lt_of_le kept (sound.held client obj))
    have claimed : 0 < s.boxes.countP fun box => box.2 = obj :=
      List.countP_pos_iff.mpr ⟨_, boxed, by simp⟩
    refine sound.balanced.not_deleted ?_
    simp only [System.claims]
    omega
  | _ => cases uses

theorem start_sound : Sound .start where
  balanced := start_balanced
  carried := fun _ _ _ inside => by cases inside
  held := fun _ _ => le_rfl

theorem used_objects_alive (host : Host) (s : System)
    (path : Transition.Path (step host) Uncarried .start s) (action : Action) (obj : Nat)
    (uses : used s action = some obj) : obj ∉ s.server.deleted :=
  (path.invariant Sound (fun _ _ _ sound allow taken => step_sound sound allow taken)
    start_sound).used_alive uses

def noScript : Host := { levels := 10, script := fun _ _ => .error "attempt to call a nil value" }

def oneUpdate : List Action :=
  [.new (.string [97]) Lua.nil, .ask 1 (.string [97]), .serve 1, .receive 1, .serve 1, .watch 1 0,
    .serve 1, .update (.string [97]) Lua.nil]

-- The client has gone over to the second object, and a third is on its way.
def twoUpdates : List Action :=
  oneUpdate ++ [.receive 1, .access 1 0, .release 1 0, .serve 1, .update (.string [97]) Lua.nil]

theorem two_updates_alive :
    ∃ s, Transition.run (step noScript) .start (twoUpdates ++ [.collect]) = some s ∧
      0 ∈ s.server.deleted ∧ used s (.receive 1) = some 2 ∧ 2 ∉ s.server.deleted := by
  obtain ⟨before, ran⟩ : ∃ before, Transition.run (step noScript) .start twoUpdates = some before :=
    ⟨_, rfl⟩
  have alone : before.replies = [(1, .monitored 0 (some 2))] := by
    obtain rfl := Option.some.inj ran
    rfl
  have counted : ¬before.server.collectable 2 := by
    obtain rfl := Option.some.inj ran
    decide
  have uncarried : Uncarried before .collect := by
    intro obj gone client root inside
    rw [alone, List.mem_singleton] at inside
    obtain rfl : obj = 2 := by simpa using (Reply.monitored.inj (Prod.mk.inj inside).2).2
    exact counted gone
  have path : Transition.Path (step noScript) Uncarried .start before :=
    .of_run twoUpdates (.refl _) (by repeat' constructor) ran
  refine ⟨{ before with server := before.server.collectobj }, ?_, ?_, ?_, ?_⟩
  · rw [Transition.run_append, ran]
    rfl
  · obtain rfl := Option.some.inj ran
    decide
  · obtain rfl := Option.some.inj ran
    rfl
  · refine used_objects_alive noScript _ (path.tail .collect uncarried rfl) (.receive 1) 2 ?_
    obtain rfl := Option.some.inj ran
    rfl

theorem late_answer_deleted :
    ¬∀ (host : Host) (actions : List Action) (s : System) (action : Action) (obj : Nat),
      Transition.run (step host) .start actions = some s → used s action = some obj →
      obj ∉ s.server.deleted := by
  intro alive
  have deleted := alive noScript (oneUpdate ++ [.update (.string [97]) Lua.nil, .collect]) _
    (.receive 1) 1 rfl rfl
  revert deleted
  decide

end Pskynet.Sharedata
