import Mathlib.Tactic
import Pskynet.Socket.Closing

set_option autoImplicit false

namespace Pskynet.Socket

open Transition

namespace Server

-- The number of an id, or of `alloc_id` without its sign.
def number (id : Int32) : Nat := id.toUInt32.toNat % 2 ^ 31

theorem nextId_toNat (allocId : Int32) :
    (nextId allocId).toUInt32.toNat = (number allocId + 1) % 2 ^ 31 := by
  have bits : (allocId + 1).toUInt32.toNat = (allocId.toUInt32.toNat + 1) % 2 ^ 32 := by
    rw [Int32.toUInt32_add, UInt32.toNat_add]
    rfl
  have bound := (allocId + 1).toUInt32.toNat_lt
  simp only [nextId, number]
  split_ifs with negative
  · have masked : ((allocId + 1) &&& 0x7fffffff).toUInt32.toNat =
        (allocId + 1).toUInt32.toNat % 2 ^ 31 := by
      rw [Int32.toUInt32_and, UInt32.toNat_and]
      exact Nat.and_two_pow_sub_one_eq_mod _ 31
    rw [masked, bits]
    omega
  · have small : (allocId + 1).toUInt32.toNat < 2 ^ 31 := by
      have nonneg : 0 ≤ (allocId + 1).toInt := by
        simpa [Int32.lt_iff_toInt_lt] using negative
      have value : (allocId + 1).toInt = _ := (allocId + 1).toBitVec.toInt_eq_toNat_cond
      change (allocId + 1).toBitVec.toNat < 2 ^ 31
      split_ifs at value <;> omega
    omega

theorem nextId_nonneg (allocId : Int32) : 0 ≤ nextId allocId := by
  have value : (nextId allocId).toInt = _ := (nextId allocId).toBitVec.toInt_eq_toNat_cond
  have small : (nextId allocId).toBitVec.toNat = _ := nextId_toNat allocId
  rw [Int32.le_iff_toInt_le]
  change 0 ≤ (nextId allocId).toInt
  split_ifs at value <;> omega

theorem number_nextId (allocId : Int32) :
    number (nextId allocId) = (number allocId + 1) % 2 ^ 31 := by
  rw [number, nextId_toNat, Nat.mod_mod]

theorem reserveLoop_some (promised : Bool) (turns : Nat) (sv after : Server) (id : Int32)
    (found : reserveLoop promised turns sv = (some id, after)) :
    0 ≤ id ∧ ∃ k, 1 ≤ k ∧ id.toUInt32.toNat = (number sv.allocId + k) % 2 ^ 31 ∧
      after.allocId = id ∧ after.increments = sv.increments + k ∧
      after.given = sv.given ++ [(id, sv.increments + k)] := by
  induction turns generalizing sv with
  | zero => simp [reserveLoop] at found
  | succ turns ih =>
    simp only [reserveLoop] at found
    split_ifs at found with free
    · simp only [Prod.mk.injEq, Option.some.injEq] at found
      obtain ⟨rfl, rfl⟩ := found
      exact ⟨nextId_nonneg _, 1, le_rfl, nextId_toNat _, rfl, rfl, rfl⟩
    · obtain ⟨nonneg, k, _, value, last, count, listed⟩ := ih _ found
      refine ⟨nonneg, k + 1, by omega, ?_, last, ?_, ?_⟩
      · rw [value, number_nextId]
        omega
      · rw [count]
        simp only
        omega
      · rw [listed]
        simp only
        rw [Nat.add_assoc, Nat.add_comm 1 k]

theorem reserveLoop_none (promised : Bool) (turns : Nat) (sv after : Server)
    (full : reserveLoop promised turns sv = (none, after)) :
    (∀ k, 1 ≤ k → k ≤ turns →
        (sv.slot ((number sv.allocId + k) % 2 ^ 31 % maxSocket)).type ≠ .invalid) ∧
      number after.allocId = (number sv.allocId + turns) % 2 ^ 31 ∧
      after.increments = sv.increments + turns ∧ after.given = sv.given := by
  induction turns generalizing sv with
  | zero =>
    simp only [reserveLoop, Prod.mk.injEq, true_and] at full
    subst full
    refine ⟨fun k positive none_ => by omega, ?_, rfl, rfl⟩
    rw [number, Nat.add_zero, Nat.mod_mod]
  | succ turns ih =>
    simp only [reserveLoop] at full
    split_ifs at full with free
    · simp at full
    · obtain ⟨taken, last, count, listed⟩ := ih _ full
      simp only at taken last count listed
      refine ⟨?_, ?_, by omega, listed⟩
      · intro k positive within
        rcases Nat.eq_or_lt_of_le positive with rfl | later
        · rw [← nextId_toNat]
          exact free
        · have before := taken (k - 1) (by omega) (by omega)
          rw [number_nextId] at before
          rwa [show ((number sv.allocId + 1) % 2 ^ 31 + (k - 1)) % 2 ^ 31 =
            (number sv.allocId + k) % 2 ^ 31 by omega] at before
      · rw [last, number_nextId]
        omega

-- What one call of `reserve_id` does.
structure Reserves (sv : Server) (promised : Bool) : Prop where
  returns : (∃ id, (sv.reserveId promised).1 = some id) ↔
    ∃ i, i < maxSocket ∧ (sv.slot i).type = .invalid
  takes : ∀ id after, sv.reserveId promised = (some id, after) →
    0 ≤ id ∧ (sv.slot (hashId id)).type = .invalid ∧
      (after.slot (hashId id)).type = .reserve ∧ (after.slot (hashId id)).id = id ∧
      ∀ i, i ≠ hashId id → after.slot i = sv.slot i
  keeps : ∀ after, sv.reserveId promised = (none, after) → after.slot = sv.slot

theorem reserves (sv : Server) (promised : Bool) : sv.Reserves promised := by
  refine ⟨⟨?_, ?_⟩, ?_, fun after full => reserveId_none sv after promised full⟩
  · rintro ⟨id, found⟩
    obtain ⟨free, _⟩ := reserveId_some sv (sv.reserveId promised).2 promised id (by rw [← found])
    exact ⟨hashId id, Nat.mod_lt _ (by decide), free⟩
  · rintro ⟨i, within, free⟩
    rcases found : sv.reserveId promised with ⟨_ | id, after⟩
    · -- Some turn has looked at slot `i`.
      obtain ⟨taken, _⟩ := reserveLoop_none promised maxSocket sv after found
      rw [show maxSocket = 65536 from rfl] at taken within
      have turn := taken ((i + 65536 - number sv.allocId % 65536 - 1) % 65536 + 1) (by omega)
        (by omega)
      rw [show (number sv.allocId + ((i + 65536 - number sv.allocId % 65536 - 1) % 65536 + 1)) %
        2 ^ 31 % 65536 = i by omega] at turn
      exact absurd free turn
    · exact ⟨id, rfl⟩
  · intro id after found
    obtain ⟨nonneg, _⟩ := reserveLoop_some promised maxSocket sv after id found
    obtain ⟨free, slots⟩ := reserveId_some sv after promised id found
    rw [slots]
    refine ⟨nonneg, free, ?_, ?_, ?_⟩
    · rw [Function.update_self]
      rfl
    · rw [Function.update_self]
      rfl
    · intro i other
      exact Function.update_of_ne other _ _

end Server

namespace SnSocket

structure Placed (i : Nat) (s : SnSocket) : Prop where
  home : s.type ≠ .invalid → hashId s.id = i
  request : s.connecting = true → s.type ≠ .invalid ∧ s.promised = false

variable {i : Nat} {s t : SnSocket}

theorem Placed.frame (placed : Placed i s) (id : t.id = s.id)
    (type : t.type ≠ .invalid → s.type ≠ .invalid)
    (request : t.connecting = true → t.type ≠ .invalid ∧ t.promised = false) : Placed i t := by
  refine ⟨?_, request⟩
  intro used
  rw [id]
  exact placed.home (type used)

theorem Placed.forceClose (placed : Placed i s) : Placed i s.forceClose.1 := by
  obtain ⟨_, same⟩ | ⟨_, same⟩ | ⟨_, _, same⟩ := s.forceClose_cases <;> rw [same]
  · exact placed
  · exact placed.frame rfl (fun used => used) placed.request
  · exact placed.frame rfl (fun used => used) placed.request

theorem Placed.wrote (placed : Placed i s) (wrote : s.Wrote t) : Placed i t := by
  obtain ⟨_, _, _, _, rfl, _⟩ := wrote
  exact placed.frame rfl (fun used => used) placed.request

theorem Placed.of_made {id : Int32} (made : s.Made id t) (unpromised : s.promised = false) :
    Placed (hashId id) t := by
  cases made with
  | refused reserved => exact ⟨fun _ => rfl, fun _ => ⟨by simp [abandoned, reserved], unpromised⟩⟩
  | unbound _ _ reserved =>
    exact ⟨fun _ => rfl, fun _ => ⟨by simp [initialised, uvClose, reserved], unpromised⟩⟩
  | connects => exact ⟨fun _ => rfl, fun _ => ⟨by simp, unpromised⟩⟩
  | opened _ _ _ _ _ _ _ _ made =>
    refine ⟨fun _ => rfl, fun _ => ⟨?_, unpromised⟩⟩
    rcases made with rfl | rfl | rfl | rfl <;> simp

theorem Placed.starting {id : Int32} (placed : Placed i s) (starting : s.Starting id t) :
    Placed i t := by
  have used : s.type = .paccept ∨ s.type = .plisten → s.type ≠ .invalid := by
    rintro (is | is) <;> simp [is]
  have request := fun connecting => (placed.request connecting).2
  cases starting with
  | same => exact placed
  | transfer => exact placed.frame rfl (fun used => used) placed.request
  | reads _ _ type =>
    exact placed.frame rfl (fun _ => used (.inl type)) fun connecting =>
      ⟨by simp, request connecting⟩
  | readFails => exact Placed.forceClose (placed.frame rfl (fun used => used) placed.request)
  | listens _ _ type =>
    exact placed.frame rfl (fun _ => used (.inr type)) fun connecting =>
      ⟨by simp, request connecting⟩
  | listenFails => exact Placed.forceClose (placed.frame rfl (fun used => used) placed.request)

theorem Placed.commanded {c : Command} {u : Results} (placed : Placed (hashId c.id) s)
    (commanded : s.Commanded c u t) : Placed (hashId c.id) t := by
  cases commanded with
  | same => exact placed
  | addressed => exact placed.frame rfl (fun used => used) placed.request
  | started _ _ _ _ starting => exact placed.starting starting
  | closed => exact placed.forceClose
  | halfClosed _ _ v type _ here _ wrote marked =>
    obtain ⟨_, _, _, _, rfl, _⟩ := wrote
    refine placed.frame rfl (fun _ => missing_false here) ?_
    intro connecting
    refine ⟨?_, (placed.request connecting).2⟩
    rcases marked with rfl | rfl
    · exact missing_false here
    · simp
  | appended _ _ _ _ _ _ _ _ wrote =>
    refine Placed.wrote ?_ wrote
    exact placed.frame rfl (fun used => used) placed.request
  | unresolved promised =>
    refine placed.frame rfl (by simp) ?_
    intro connecting
    rw [(placed.request connecting).2] at promised
    contradiction
  | unconnected _ _ _ _ promised =>
    refine ⟨by simp, ?_⟩
    intro connecting
    rw [(placed.request connecting).2] at promised
    contradiction
  | made _ _ _ made => exact .of_made made rfl

theorem Placed.calledBack (placed : Placed i s) (calledBack : s.CalledBack t) : Placed i t := by
  cases calledBack with
  | same => exact placed
  | readError => exact Placed.forceClose (placed.frame rfl (fun used => used) placed.request)
  | connectError => exact Placed.forceClose (placed.frame rfl (fun used => used) (by simp))
  | readFails => exact Placed.forceClose (placed.frame rfl (fun used => used) (by simp [uvReadStart, uvCall]))
  | connected connecting =>
    exact placed.frame rfl (fun _ => (placed.request connecting).1) (by simp [uvReadStart, uvCall])
  | sendError => exact placed.frame rfl (fun used => used) placed.request
  | sent _ _ _ _ _ _ _ _ wrote =>
    refine Placed.wrote ?_ wrote
    exact placed.frame rfl (fun used => used) placed.request
  | listenError => exact placed.forceClose
  | closed _ _ settled => exact placed.frame rfl (by simp) (by simp [settled])

end SnSocket

open Pskynet.Socket.Server

theorem placed_kept : Kept SnSocket.Placed fun _ _ _ => True where
  reserve s id promised placed free := by
    refine ⟨fun _ => rfl, ?_⟩
    intro connecting
    exact absurd free (placed.request connecting).1
  accepted s id opaqueValue u after made _ _ unpromised done :=
    .of_made (SnSocket.accepted_made s after id opaqueValue u made done) unpromised
  command s c u after events placed _ done :=
    placed.commanded (SnSocket.ctrlCmd_commanded s after c u events done)
  callback _ s k u after events placed done :=
    placed.calledBack (SnSocket.callback_calledBack s after k u events done)

namespace Server

-- The ids that were given out, with the number of increments at which each was: the counter has
-- gone up by one, modulo 2^31, with every increment.
structure Counted (start : Nat) (sv : Server) : Prop where
  counter : number sv.allocId = (start + sv.increments) % 2 ^ 31
  values : ∀ id n, (id, n) ∈ sv.given → id.toUInt32.toNat = (start + n) % 2 ^ 31
  past : ∀ id n, (id, n) ∈ sv.given → n ≤ sv.increments
  order : sv.given.Pairwise fun first second => first.2 < second.2

theorem Counted.frame {start : Nat} {sv after : Server} (counted : Counted start sv)
    (allocId : after.allocId = sv.allocId) (increments : after.increments = sv.increments)
    (given : after.given = sv.given) : Counted start after := by
  refine ⟨?_, ?_, ?_, ?_⟩
  · rw [allocId, increments]
    exact counted.counter
  · rw [given]
    exact counted.values
  · rw [given, increments]
    exact counted.past
  · rw [given]
    exact counted.order

theorem Counted.reserveId {start : Nat} {sv : Server} (counted : Counted start sv)
    (promised : Bool) : Counted start (sv.reserveId promised).2 := by
  have counter := counted.counter
  rcases found : sv.reserveId promised with ⟨_ | id, after⟩
  · obtain ⟨_, last, count, given⟩ := reserveLoop_none promised maxSocket sv after found
    simp only
    refine ⟨?_, ?_, ?_, ?_⟩
    · rw [last, count]
      omega
    · rw [given]
      exact counted.values
    · rw [given, count]
      intro id n member
      have := counted.past id n member
      omega
    · rw [given]
      exact counted.order
  · obtain ⟨_, k, positive, value, last, count, given⟩ :=
      reserveLoop_some promised maxSocket sv after id found
    simp only
    have whole : id.toUInt32.toNat = (start + (sv.increments + k)) % 2 ^ 31 := by omega
    refine ⟨?_, ?_, ?_, ?_⟩
    · rw [last, count, number, whole, Nat.mod_mod]
    · rw [given]
      intro other n member
      rw [List.mem_append, List.mem_singleton] at member
      rcases member with before | new
      · exact counted.values other n before
      · obtain ⟨rfl, rfl⟩ := Prod.mk.inj new
        exact whole
    · rw [given, count]
      intro other n member
      rw [List.mem_append, List.mem_singleton] at member
      rcases member with before | new
      · have := counted.past other n before
        omega
      · obtain ⟨rfl, rfl⟩ := Prod.mk.inj new
        exact le_rfl
    · rw [given, List.pairwise_append]
      refine ⟨counted.order, List.pairwise_singleton _ _, ?_⟩
      intro first member second last
      rw [List.mem_singleton] at last
      have := counted.past first.1 first.2 member
      rw [last]
      simp only
      omega

theorem Counted.next {start : Nat} {sv after : Server} (counted : Counted start sv) (a : Action)
    (taken : sv.next a = some after) : Counted start after := by
  simp only [Server.next, Option.map_eq_some_iff, Prod.exists, exists_and_right,
    exists_eq_right] at taken
  obtain ⟨events, taken⟩ := taken
  cases a with
  | reserve =>
    simp only [step, Option.some.injEq, Prod.mk.injEq] at taken
    exact taken.1 ▸ counted.reserveId true
  | command c u =>
    simp only [step, Option.map_eq_some_iff, Prod.exists, Prod.mk.injEq] at taken
    obtain ⟨s, _, _, rfl, rfl⟩ := taken
    exact counted.frame rfl rfl rfl
  | callback i k u =>
    simp only [step] at taken
    split_ifs at taken
    simp only [Option.map_eq_some_iff, Prod.exists, Prod.mk.injEq] at taken
    obtain ⟨s, _, _, rfl, rfl⟩ := taken
    exact counted.frame rfl rfl rfl
  | connection i peer u =>
    simp only [step] at taken
    split_ifs at taken
    have reserved := counted.reserveId false
    simp only [reportAccept] at taken
    rcases found : sv.reserveId false with ⟨_ | id, middle⟩ <;> rw [found] at taken reserved
    · simp only [Option.some.injEq, Prod.mk.injEq] at taken
      exact taken.1 ▸ reserved
    · simp only at taken
      split at taken
      · contradiction
      · simp only [Option.some.injEq, Prod.mk.injEq] at taken
        exact taken.1 ▸ reserved.frame rfl rfl rfl
      · simp only [Option.some.injEq, Prod.mk.injEq] at taken
        exact taken.1 ▸ reserved.frame rfl rfl rfl

structure DistinctIds (sv : Server) : Prop where
  used : ∀ i j, (sv.slot i).type ≠ .invalid → (sv.slot j).type ≠ .invalid →
    (sv.slot i).id = (sv.slot j).id → i = j
  apart : ∀ (a b n m : Nat) (id : Int32), a < b → sv.given[a]? = some (id, n) →
    sv.given[b]? = some (id, m) → 2 ^ 31 - maxSocket ≤ m - n

theorem Counted.apart {start : Nat} {sv : Server} (counted : Counted start sv) (a b n m : Nat)
    (id : Int32) (before : a < b) (first : sv.given[a]? = some (id, n))
    (second : sv.given[b]? = some (id, m)) : 2 ^ 31 ≤ m - n := by
  obtain ⟨withinA, isA⟩ := List.getElem?_eq_some_iff.mp first
  obtain ⟨withinB, isB⟩ := List.getElem?_eq_some_iff.mp second
  have later := List.pairwise_iff_getElem.mp counted.order a b withinA withinB before
  have valueA := counted.values id n (List.mem_of_getElem? first)
  have valueB := counted.values id m (List.mem_of_getElem? second)
  rw [isA, isB] at later
  simp only at later
  omega

end Server

theorem reserveId_correct :
    (∀ (sv : Server) (promised : Bool), sv.Reserves promised) ∧
      ∀ (memory : Nat → SnSocket) (allocId : Int32) (actions : List Action) (sv : Server),
        run next (create memory allocId) actions = some sv → sv.DistinctIds := by
  refine ⟨reserves, ?_⟩
  intro memory allocId actions sv reached
  have initial : Counted (number allocId) (create memory allocId) := by
    refine ⟨?_, by simp [create], by simp [create], by simp [create]⟩
    change number allocId = (number allocId + 0) % 2 ^ 31
    rw [number, Nat.add_zero, Nat.mod_mod]
  have counted := run_invariant next (Counted (number allocId))
    (fun _ a _ counted taken => counted.next a taken) actions _ sv initial reached
  have placed := run_invariant next (fun sv => ∀ i, SnSocket.Placed i (sv.slot i))
    (fun sv a after all taken =>
      next_all placed_kept sv after a all (by cases a <;> trivial) taken)
    actions _ sv (fun i => ⟨by simp [create], by simp [create]⟩) reached
  constructor
  · intro i j usedI usedJ same
    rw [← (placed i).home usedI, ← (placed j).home usedJ, same]
  · intro a b n m id before first second
    have far := counted.apart a b n m id before first second
    omega

theorem two_ids_distinct :
    ∃ sv, run next Server.blank [.reserve, .reserve] = some sv ∧ sv.given = [(1, 1), (2, 2)] ∧
      (sv.slot 1).type = .reserve ∧ (sv.slot 2).type = .reserve ∧ sv.DistinctIds :=
  ⟨_, rfl, rfl, rfl, rfl, reserveId_correct.2 (fun _ => SnSocket.blank) 0 [.reserve, .reserve] _ rfl⟩

end Pskynet.Socket
