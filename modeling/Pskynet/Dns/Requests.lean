import Pskynet.Dns.Question
import Pskynet.Shared.Transition

set_option autoImplicit false

namespace Pskynet.Dns

open LittleEndian

structure Service where
  nextTid : Int64
  dnsServer : Bool
  requestPool : Pool

def Service.start : Service := ⟨1, false, fun _ => none⟩

def packHeader (tid flags qdcount ancount nscount arcount : Int) : Except String (List UInt8) :=
  packInt 2 tid >>= fun tid =>
    packInt 2 flags >>= fun flags =>
      packInt 2 qdcount >>= fun qdcount =>
        packInt 2 ancount >>= fun ancount =>
          packInt 2 nscount >>= fun nscount =>
            (packInt 2 arcount).map fun arcount =>
              tid ++ flags ++ qdcount ++ ancount ++ nscount ++ arcount

def lower (name : List UInt8) : List UInt8 :=
  name.map fun c => if 65 ≤ c ∧ c ≤ 90 then c + 32 else c

def qtypeOf (ipv6 : Bool) : Nat := if ipv6 then qtypeAAAA else qtypeA

namespace Service

-- `dns.resolve` in the thread `co`, up to `skynet.wait`: what is sent, or the error
def resolve (s : Service) (co : Nat) (name : List UInt8) (ipv6 : Bool) :
    Service × Except String (List UInt8) :=
  let qtype := qtypeOf ipv6
  let name := lower name
  if verifyDomainName name then
    let tid := s.nextTid
    let s := { s with nextTid := s.nextTid + 1 }
    match packHeader tid.toInt 0x100 1 0 0 0 >>= fun header =>
        (packQuestion name qtype qclassIN).map fun question => header ++ question with
    | .error text => (s, .error text)
    | .ok req =>
      if s.dnsServer then
        ({ s with requestPool := Function.update s.requestPool tid (some ⟨name, qtype, co, none⟩) },
          .ok req)
      else (s, .error "Call dns.server fist")
  else (s, .error "illegal name")

-- `suspend` behind `skynet.wait`, in the thread that waits with this id
def wake (s : Service) (tid : Int64) : Service × Except String (Option String × List String) :=
  match s.requestPool tid with
  | none => (s, .error "attempt to index a nil value")
  | some req =>
    ({ s with requestPool := Function.update s.requestPool tid none },
      match req.answers with
      | none => .error "no ip"
      | some answers => .ok (answers.head?, answers))

end Service

-- A thread is woken by its answer or by another thread. A datagram comes with the rounds that are
-- left for each of its names.
inductive Action where
  | server
  | resolve (co : Nat) (name : List UInt8) (ipv6 : Bool)
  | datagram (content : Chunk) (fuel : Nat)
  | wake (tid : Int64)
  deriving DecidableEq, Repr

def step (s : Service) : Action → Option Service
  | .server => some { s with dnsServer := true }
  | .resolve co name ipv6 => some (s.resolve co name ipv6).1
  | .datagram content fuel =>
    (resolve s.requestPool content fuel).map fun
      | .ok (pool, _) => { s with requestPool := pool }
      | .error _ => s
  | .wake tid => some (s.wake tid).1

def Action.takesId : Action → Bool
  | .resolve _ name _ => verifyDomainName (lower name)
  | _ => false

-- How often `gen_tid` was called
def idsTaken (actions : List Action) : Nat := actions.countP Action.takesId

def SendsFresh (s : Service) (co : Nat) (name : List UInt8) (ipv6 : Bool) : Prop :=
  ∃ tid rest, tid < 65536 ∧ s.requestPool (Int64.ofNat tid) = none ∧
    (s.resolve co name ipv6).2 = .ok ((bytes 2 tid).reverse ++ rest) ∧
    (s.resolve co name ipv6).1.requestPool (Int64.ofNat tid) =
      some ⟨lower name, qtypeOf ipv6, co, none⟩

structure Counted (s : Service) (taken : Nat) : Prop where
  next : s.nextTid = Int64.ofNat (taken + 1)
  waits : ∀ tid, s.requestPool tid ≠ none → ∃ k < taken, tid = Int64.ofNat (k + 1)

section

variable {s : Service} {co : Nat} {name : List UInt8} {ipv6 : Bool}

theorem qtypeOf_lt (ipv6 : Bool) : qtypeOf ipv6 < 65536 := by
  cases ipv6 <;> decide

theorem packHeader_eq (tid : Int) :
    packHeader tid 0x100 1 0 0 0 =
      (packInt 2 tid).map fun tid => tid ++ [1, 0, 0, 1, 0, 0, 0, 0, 0, 0] := by
  unfold packHeader
  cases packInt 2 tid with
  | error text => rfl
  | ok tid =>
    change Except.ok _ = Except.ok _
    simp [bytes]

theorem resolve_illegal (illegal : verifyDomainName (lower name) = false) :
    s.resolve co name ipv6 = (s, .error "illegal name") := by
  rw [Service.resolve, illegal]
  rfl

theorem resolve_overflow (legal : verifyDomainName (lower name) = true)
    (wide : ¬(0 ≤ s.nextTid.toInt ∧ s.nextTid.toInt < 65536)) :
    s.resolve co name ipv6 =
      ({ s with nextTid := s.nextTid + 1 }, .error "unsigned overflow") := by
  have header : packHeader s.nextTid.toInt 0x100 1 0 0 0 = .error "unsigned overflow" := by
    have short : packInt 2 s.nextTid.toInt = .error "unsigned overflow" := if_neg wide
    rw [packHeader_eq, short]
    rfl
  simp only [Service.resolve, legal, if_true, header]
  rfl

theorem resolve_sends (co : Nat) (ipv6 : Bool) (legal : verifyDomainName (lower name) = true) (server : s.dnsServer = true)
    {tid : Nat} (is : s.nextTid = Int64.ofNat tid) (fits : tid < 65536) :
    ∃ rest, s.resolve co name ipv6 =
      ({ s with
          nextTid := s.nextTid + 1
          requestPool := Function.update s.requestPool (Int64.ofNat tid)
            (some ⟨lower name, qtypeOf ipv6, co, none⟩) },
        .ok ((bytes 2 tid).reverse ++ rest)) := by
  obtain ⟨question, packed⟩ := packQuestion_accepted legal (qtypeOf ipv6) (qtypeOf_lt ipv6)
  have number : s.nextTid.toInt = tid := by
    rw [is, Int64.toInt_ofNat_of_lt (by omega)]
  have header : packHeader s.nextTid.toInt 0x100 1 0 0 0 =
      .ok ((bytes 2 tid).reverse ++ [1, 0, 0, 1, 0, 0, 0, 0, 0, 0]) := by
    rw [packHeader_eq, number, packInt_fits (Int.natCast_nonneg tid) (by omega)]
    rfl
  refine ⟨[1, 0, 0, 1, 0, 0, 0, 0, 0, 0] ++ question, ?_⟩
  simp only [Service.resolve, legal, if_true, header, packed, server]
  rw [is, ← List.append_assoc]
  rfl

theorem resolve_pool {pool pool' : Pool} {content : Chunk} {fuel : Nat} {result : Resolved}
    (done : resolve pool content fuel = some (.ok (pool', result))) {tid : Int64}
    (waits : pool' tid ≠ none) : pool tid ≠ none := by
  unfold resolve at done
  split_ifs at done
  · obtain ⟨rfl, -⟩ := Prod.mk.inj (Except.ok.inj (Option.some.inj done))
    exact waits
  · obtain ⟨⟨header, left⟩, -, done⟩ := Loop.of_bind_ok done
    simp only at done
    split_ifs at done
    · cases done
    · cases found : pool (Int64.ofNat header.tid) with
      | none =>
        rw [found] at done
        obtain ⟨rfl, -⟩ := Prod.mk.inj (Except.ok.inj (Option.some.inj done))
        exact waits
      | some resp =>
        rw [found] at done
        obtain ⟨⟨question, left⟩, -, done⟩ := Loop.of_bind_ok done
        simp only at done
        split_ifs at done
        · obtain ⟨rfl, -⟩ := Prod.mk.inj (Except.ok.inj (Option.some.inj done))
          exact waits
        · obtain ⟨answers, -, done⟩ := Loop.of_bind_ok done
          have same := congrArg Prod.fst (Except.ok.inj (Option.some.inj done))
          simp only [answered] at same
          split_ifs at same
          · exact same ▸ waits
          · rw [← same] at waits
            by_cases this : tid = Int64.ofNat header.tid
            · rw [this, found]
              exact Option.some_ne_none resp
            · rwa [Function.update_of_ne this] at waits

theorem start_counted : Counted .start 0 := ⟨rfl, fun _ waits => absurd rfl waits⟩

theorem Counted.more {taken : Nat} (counted : Counted s taken) {pool : Pool}
    (fewer : ∀ tid, pool tid ≠ none → s.requestPool tid ≠ none) (server : Bool) :
    Counted { s with requestPool := pool, dnsServer := server } taken :=
  ⟨counted.next, fun tid waits => counted.waits tid (fewer tid waits)⟩

theorem Counted.after {taken : Nat} (counted : Counted s taken) {pool : Pool}
    (fewer : ∀ tid, pool tid ≠ none → s.requestPool tid ≠ none ∨ tid = s.nextTid) :
    Counted { s with nextTid := s.nextTid + 1, requestPool := pool } (taken + 1) := by
  refine ⟨?_, fun tid waits => ?_⟩
  · change s.nextTid + 1 = _
    rw [counted.next, Int64.ofNat_add (taken + 1)]
    rfl
  · rcases fewer tid waits with old | new
    · obtain ⟨k, less, is⟩ := counted.waits tid old
      exact ⟨k, Nat.lt_succ_of_lt less, is⟩
    · exact ⟨taken, Nat.lt_succ_self taken, new.trans counted.next⟩

theorem resolve_counted {taken : Nat} (counted : Counted s taken) :
    Counted (s.resolve co name ipv6).1
      (taken + if verifyDomainName (lower name) then 1 else 0) := by
  by_cases legal : verifyDomainName (lower name) = true
  · rw [if_pos legal]
    simp only [Service.resolve, legal, if_true]
    cases packHeader s.nextTid.toInt 0x100 1 0 0 0 >>= fun header =>
        (packQuestion (lower name) (qtypeOf ipv6) qclassIN).map fun question => header ++ question with
    | error text => exact counted.after fun tid waits => .inl waits
    | ok req =>
      by_cases server : s.dnsServer = true
      · dsimp only
        rw [if_pos server]
        refine counted.after fun tid waits => ?_
        by_cases this : tid = s.nextTid
        · exact .inr this
        · rw [Function.update_of_ne this] at waits
          exact .inl waits
      · dsimp only
        rw [if_neg server]
        exact counted.after fun tid waits => .inl waits
  · rw [Bool.not_eq_true] at legal
    rw [resolve_illegal legal, legal]
    exact counted

theorem wake_counted {taken : Nat} (counted : Counted s taken) (tid : Int64) :
    Counted (s.wake tid).1 taken := by
  unfold Service.wake
  cases s.requestPool tid with
  | none => exact counted
  | some req =>
    refine ⟨counted.next, fun other waits => counted.waits other ?_⟩
    change Function.update s.requestPool tid none other ≠ none at waits
    by_cases this : other = tid
    · exact absurd (by rw [this]; exact Function.update_self _ _ _) waits
    · rwa [Function.update_of_ne this] at waits

theorem step_counted {t : Service} {action : Action} {taken : Nat} (counted : Counted s taken)
    (taken_ : step s action = some t) : Counted t (taken + if action.takesId then 1 else 0) := by
  cases action with
  | server =>
    obtain rfl := Option.some.inj taken_
    exact ⟨counted.next, counted.waits⟩
  | resolve co name ipv6 =>
    obtain rfl := Option.some.inj taken_
    exact resolve_counted counted
  | datagram content fuel =>
    obtain ⟨outcome, done, rfl⟩ := Option.map_eq_some_iff.mp taken_
    cases outcome with
    | error text => exact counted
    | ok both => exact ⟨counted.next, fun tid waits => counted.waits tid (resolve_pool done waits)⟩
  | wake tid =>
    obtain rfl := Option.some.inj taken_
    exact wake_counted counted tid

theorem run_counted {t : Service} {taken : Nat} (actions : List Action) (counted : Counted s taken)
    (reached : Transition.run step s actions = some t) : Counted t (taken + idsTaken actions) := by
  induction actions generalizing s taken with
  | nil =>
    obtain rfl := Option.some.inj reached
    exact counted
  | cons action rest ih =>
    simp only [Transition.run] at reached
    cases taken_ : step s action with
    | none => rw [taken_] at reached; cases reached
    | some next =>
      rw [taken_] at reached
      have later := ih (step_counted counted taken_) reached
      have count : idsTaken (action :: rest) = idsTaken rest + if action.takesId then 1 else 0 :=
        List.countP_cons
      rw [count]
      rwa [Nat.add_assoc, Nat.add_comm _ (idsTaken rest)] at later

theorem small_ids_differ {k n : Nat} (less : k < n) (small : n < 2 ^ 63) :
    Int64.ofNat k ≠ Int64.ofNat n := by
  intro same
  have values := congrArg Int64.toInt same
  rw [Int64.toInt_ofNat_of_lt (by omega), Int64.toInt_ofNat_of_lt small] at values
  omega

theorem wide_id {n : Nat} (wide : 65536 ≤ n) (round : n < 2 ^ 64) :
    ¬(0 ≤ (Int64.ofNat n).toInt ∧ (Int64.ofNat n).toInt < 65536) := by
  rw [Int64.toInt_ofNat', Int.bmod_def]
  have size : (Int64.size : Int) = 2 ^ 64 := by decide
  rw [size]
  omega

theorem Counted.sends {taken : Nat} (counted : Counted s taken) (few : taken < 65535) (co : Nat)
    (ipv6 : Bool) (legal : verifyDomainName (lower name) = true) (server : s.dnsServer = true) :
    SendsFresh s co name ipv6 := by
  obtain ⟨rest, sent⟩ := resolve_sends co ipv6 legal server counted.next (by omega)
  refine ⟨taken + 1, rest, by omega, ?_, by rw [sent], by rw [sent]; exact Function.update_self _ _ _⟩
  by_contra waits
  obtain ⟨k, less, is⟩ := counted.waits _ waits
  exact small_ids_differ (Nat.succ_lt_succ less) (by omega) is.symm

theorem Counted.fails {taken : Nat} (counted : Counted s taken) (many : 65535 ≤ taken)
    (round : taken + 1 < 2 ^ 64) (co : Nat) (ipv6 : Bool)
    (legal : verifyDomainName (lower name) = true) :
    (s.resolve co name ipv6).2 = .error "unsigned overflow" := by
  rw [resolve_overflow legal (counted.next ▸ wide_id (by omega) round)]

end

theorem ids_valid (actions : List Action) (s : Service)
    (reached : Transition.run step .start actions = some s) (co : Nat) (name : List UInt8)
    (ipv6 : Bool) (legal : verifyDomainName (lower name) = true) (server : s.dnsServer = true) :
    (idsTaken actions < 65535 → SendsFresh s co name ipv6) ∧
      (65535 ≤ idsTaken actions → idsTaken actions + 1 < 2 ^ 64 →
        (s.resolve co name ipv6).2 = .error "unsigned overflow" ∧ ¬SendsFresh s co name ipv6) := by
  have counted := run_counted actions start_counted reached
  rw [Nat.zero_add] at counted
  refine ⟨fun few => counted.sends few co ipv6 legal server, fun many round => ?_⟩
  have failed := counted.fails many round co ipv6 legal
  refine ⟨failed, ?_⟩
  rintro ⟨tid, rest, -, -, sent, -⟩
  cases failed.symm.trans sent

def twoAsked : List Action :=
  [.server, .resolve 5 [65] false, .resolve 6 [66] true, .wake 1]

theorem third_id_valid : ∃ s, Transition.run step .start twoAsked = some s ∧
    (s.requestPool 2).isSome ∧ SendsFresh s 7 [65] false :=
  ⟨_, rfl, rfl, (ids_valid twoAsked _ rfl 7 [65] false (by decide) rfl).1 (by decide)⟩

def rounds : Nat → List Action
  | 0 => []
  | n + 1 => rounds n ++ [.resolve 5 [97] false, .wake (Int64.ofNat (n + 1))]

def afterRounds (n : Nat) : Service := ⟨Int64.ofNat (n + 1), true, fun _ => none⟩

theorem round_run {n : Nat} (few : n < 65535) :
    Transition.run step (afterRounds n) [.resolve 5 [97] false, .wake (Int64.ofNat (n + 1))] =
      some (afterRounds (n + 1)) := by
  obtain ⟨rest, sent⟩ := resolve_sends (s := afterRounds n) 5 false
    (by decide : verifyDomainName (lower [97]) = true) rfl rfl (by omega : n + 1 < 65536)
  have emptied (waiting : Option Request) :
      Function.update (Function.update (fun _ => none) (Int64.ofNat (n + 1)) waiting)
        (Int64.ofNat (n + 1)) none = (fun _ => none : Pool) := by
    rw [Function.update_idem, Function.update_eq_self_iff]
  have next : Int64.ofNat (n + 1) + 1 = Int64.ofNat (n + 1 + 1) := (Int64.ofNat_add (n + 1) 1).symm
  simp only [Transition.run, step, sent, Service.wake]
  rw [Function.update_self]
  simp only [afterRounds, emptied, next]

theorem rounds_run (n : Nat) (few : n ≤ 65535) :
    Transition.run step (afterRounds 0) (rounds n) = some (afterRounds n) := by
  induction n with
  | zero => rfl
  | succ n ih =>
    rw [rounds, Transition.run_append, ih (by omega), Option.bind_some, round_run (by omega)]

theorem idsTaken_rounds (n : Nat) : idsTaken (rounds n) = n := by
  induction n with
  | zero => rfl
  | succ n ih =>
    rw [rounds, idsTaken, List.countP_append]
    exact congrArg (· + 1) ih

theorem used_up_after {n : Nat} (is : n = 65535) :
    ∃ actions s, Transition.run step .start actions = some s ∧ s.dnsServer = true ∧
      (∀ tid, s.requestPool tid = none) ∧ verifyDomainName (lower [97]) = true ∧
      ¬SendsFresh s 5 [97] false := by
  have reached : Transition.run step .start (.server :: rounds n) = some (afterRounds n) :=
    rounds_run n (by omega)
  have counted := run_counted _ start_counted reached
  have count : 0 + idsTaken (.server :: rounds n) = n := by
    rw [Nat.zero_add]
    exact idsTaken_rounds n
  rw [count] at counted
  have legal : verifyDomainName (lower [97]) = true := by decide
  refine ⟨_, _, reached, rfl, fun _ => rfl, legal, ?_⟩
  rintro ⟨tid, rest, -, -, sent, -⟩
  cases (counted.fails (by omega) (by omega) 5 false legal).symm.trans sent

theorem ids_used_up : ∃ actions s, Transition.run step .start actions = some s ∧
    s.dnsServer = true ∧ (∀ tid, s.requestPool tid = none) ∧
    verifyDomainName (lower [97]) = true ∧ ¬SendsFresh s 5 [97] false :=
  used_up_after rfl

end Pskynet.Dns
