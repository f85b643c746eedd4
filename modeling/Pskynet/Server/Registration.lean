import Mathlib.Data.Finset.Card
import Mathlib.Tactic
import Pskynet.Server.Handle

set_option autoImplicit false

namespace Pskynet.Server

def invalidHandle : UInt32 := 0

namespace SNHandleMgr

variable {Ctx : Type}

def probe (mgr : SNHandleMgr Ctx) (k : Nat) : UInt32 :=
  (mgr.handleIndex + UInt32.ofNat k) &&& handleMask

theorem toNat_probe (mgr : SNHandleMgr Ctx) (k : Nat) :
    (mgr.probe k).toNat = (mgr.handleIndex.toNat + k) % 2 ^ 24 := by
  rw [probe, Words.toNat_and_mask 24 _ handleMask (by decide), UInt32.toNat_add, UInt32.toNat_ofNat']
  omega

theorem probe_eq_zero_iff (mgr : SNHandleMgr Ctx) (k : Nat) :
    mgr.probe k = 0 ↔ (mgr.handleIndex.toNat + k) % 2 ^ 24 = 0 := by
  rw [← UInt32.toNat_inj, toNat_probe]
  rfl

theorem ofNat_add_one (k : Nat) : UInt32.ofNat k + 1 = UInt32.ofNat (k + 1) := by
  rw [UInt32.ofNat_add]
  rfl

theorem registerLoop_found (mgr : SNHandleMgr Ctx) (turns k : Nat) (handle : UInt32)
    (found : mgr.registerLoop turns (UInt32.ofNat k) = some handle) :
    ∃ j, k ≤ j ∧ j < k + turns ∧ handle = mgr.probe j ∧ mgr.slot handle = none ∧
      ∀ i, k ≤ i → i < j → mgr.slot (mgr.probe i) ≠ none := by
  induction turns generalizing k with
  | zero => simp [registerLoop] at found
  | succ turns ih =>
    simp only [registerLoop, ofNat_add_one] at found
    split at found
    · rename_i free
      obtain rfl := Option.some.inj found
      exact ⟨k, le_rfl, by omega, rfl, free, fun i from_ before => by omega⟩
    · rename_i context taken
      obtain ⟨j, from_, before, here, free, others⟩ := ih (k + 1) found
      refine ⟨j, by omega, by omega, here, free, ?_⟩
      intro i above below
      rcases Nat.eq_or_lt_of_le above with rfl | later
      · rw [probe, taken]
        exact Option.some_ne_none context
      · exact others i later below

theorem registerLoop_full (mgr : SNHandleMgr Ctx) (turns k : Nat)
    (stuck : mgr.registerLoop turns (UInt32.ofNat k) = none) :
    ∀ i, k ≤ i → i < k + turns → mgr.slot (mgr.probe i) ≠ none := by
  induction turns generalizing k with
  | zero => intro i above below; omega
  | succ turns ih =>
    simp only [registerLoop, ofNat_add_one] at stuck
    split at stuck
    · contradiction
    · rename_i context taken
      intro i above below
      rcases Nat.eq_or_lt_of_le above with rfl | later
      · rw [probe, taken]
        exact Option.some_ne_none context
      · exact ih (k + 1) stuck i later (by omega)

theorem registerLoop_first (mgr : SNHandleMgr Ctx) (turns : Nat) (some_turn : 0 < turns)
    (free : mgr.slot (mgr.probe 0) = none) : mgr.registerLoop turns 0 = some (mgr.probe 0) := by
  obtain ⟨rest, rfl⟩ := Nat.exists_eq_succ_of_ne_zero some_turn.ne'
  rw [probe] at free
  rw [show (0 : UInt32) = UInt32.ofNat 0 from rfl]
  simp only [registerLoop, free, probe]

end SNHandleMgr

namespace Registry

def registeredCount (r : Registry) : Nat :=
  ((Finset.range (2 ^ 24)).filter fun n => (r.mgr.slot (UInt32.ofNat n)).isSome).card

-- What the callers of `Register` rely on: the handle names the new context and no other, and
-- it is none of the values that stand for the lack of a destination.
structure Fresh (r : Registry) (harbor : UInt8) (handle : UInt32) : Prop where
  nonzero : handle &&& handleMask ≠ 0
  valid : handle ≠ invalidHandle
  harbor : handle >>> 24 = harbor.toUInt32
  unused : ∀ other context, r.mgr.findContext other = some context →
    other &&& handleMask ≠ handle &&& handleMask

def RegistersFresh (r : Registry) (harbor : UInt8) : Prop :=
  ∃ handle mgr, r.mgr.register r.contexts = some (handle, mgr) ∧ r.Fresh harbor handle

-- `Register` leaves the index one past a masked handle, so it can be 2^24 but not 0.
structure Indexed (r : Registry) : Prop where
  positive : 1 ≤ r.mgr.handleIndex.toNat
  bounded : r.mgr.handleIndex.toNat ≤ 2 ^ 24

theorem call_indexed (r next : Registry) (c : Call) (inv : Indexed r)
    (step : r.call c = some next) : Indexed next := by
  cases c with
  | register =>
    simp only [call, SNHandleMgr.register, Option.map_map, Option.map_eq_some_iff] at step
    obtain ⟨slot, found, rfl⟩ := step
    obtain ⟨j, _, _, here, _⟩ := r.mgr.registerLoop_found (2 ^ 24) 0 slot found
    have value := r.mgr.toNat_probe j
    rw [← here] at value
    have raised : (slot + 1).toNat = slot.toNat + 1 := by
      rw [UInt32.toNat_add]
      change (slot.toNat + 1) % 2 ^ 32 = _
      omega
    constructor
    · change 1 ≤ (slot + 1).toNat
      omega
    · change (slot + 1).toNat ≤ 2 ^ 24
      omega
  | init context =>
    simp only [call, Option.map_eq_some_iff] at step
    obtain ⟨handle, _, rfl⟩ := step
    exact ⟨inv.positive, inv.bounded⟩
  | nameHandle handle name =>
    simp only [call, SNHandleMgr.nameHandle, Option.some.injEq] at step
    subst step
    split <;> exact ⟨inv.positive, inv.bounded⟩
  | remove handle =>
    simp only [call, SNHandleMgr.remove, Option.some.injEq] at step
    subst step
    split
    · split_ifs <;> exact ⟨inv.positive, inv.bounded⟩
    · exact ⟨inv.positive, inv.bounded⟩

theorem calls_indexed (sequence : List Call) (harbor : UInt32) (r : Registry)
    (reached : (new harbor).calls sequence = some r) : Indexed r :=
  Transition.run_invariant call Indexed (fun r c next inv step => call_indexed r next c inv step)
    sequence (new harbor) r ⟨Nat.le_refl 1, by change 1 ≤ 2 ^ 24; omega⟩ reached

theorem exists_free_slot (r : Registry) (few : r.registeredCount < 2 ^ 24) :
    ∃ n, n < 2 ^ 24 ∧ r.mgr.slot (UInt32.ofNat n) = none := by
  by_contra full
  push Not at full
  have all : (Finset.range (2 ^ 24)).filter
      (fun n => (r.mgr.slot (UInt32.ofNat n)).isSome) = Finset.range (2 ^ 24) := by
    apply Finset.filter_true_of_mem
    intro n within
    exact Option.isSome_iff_ne_none.mpr (full n (Finset.mem_range.mp within))
  rw [registeredCount, all, Finset.card_range] at few
  exact lt_irrefl _ few

theorem registerLoop_returns (r : Registry) (inv : Indexed r)
    (few : r.registeredCount < 2 ^ 24) : ∃ slot, r.mgr.registerLoop (2 ^ 24) 0 = some slot := by
  obtain ⟨n, within, free⟩ := r.exists_free_slot few
  have positive := inv.positive
  have bounded := inv.bounded
  rw [← Option.ne_none_iff_exists']
  intro stuck
  refine r.mgr.registerLoop_full (2 ^ 24) 0 stuck
    ((n + 2 ^ 24 - r.mgr.handleIndex.toNat) % 2 ^ 24) (by omega) (by omega) ?_
  have here : r.mgr.probe ((n + 2 ^ 24 - r.mgr.handleIndex.toNat) % 2 ^ 24) = UInt32.ofNat n := by
    rw [← UInt32.toNat_inj, SNHandleMgr.toNat_probe, UInt32.toNat_ofNat']
    omega
  rw [here, free]

theorem registerLoop_zero_iff (r : Registry) (inv : Indexed r) (slot : UInt32)
    (found : r.mgr.registerLoop (2 ^ 24) 0 = some slot) :
    slot = 0 ↔ r.mgr.slot 0 = none ∧
      ∀ handle, r.mgr.handleIndex ≤ handle → handle ≤ handleMask → r.mgr.slot handle ≠ none := by
  obtain ⟨j, _, within, here, free, before⟩ := r.mgr.registerLoop_found (2 ^ 24) 0 slot found
  have positive := inv.positive
  have bounded := inv.bounded
  constructor
  · rintro rfl
    refine ⟨free, ?_⟩
    intro handle above below
    have wraps : (r.mgr.handleIndex.toNat + j) % 2 ^ 24 = 0 :=
      (r.mgr.probe_eq_zero_iff j).mp here.symm
    rw [UInt32.le_iff_toNat_le] at above below
    change handle.toNat ≤ 0xffffff at below
    have at_ : r.mgr.probe (handle.toNat - r.mgr.handleIndex.toNat) = handle := by
      rw [← UInt32.toNat_inj, SNHandleMgr.toNat_probe]
      omega
    rw [← at_]
    exact before _ (by omega) (by omega)
  · rintro ⟨zero, taken⟩
    by_contra other
    have last : r.mgr.probe (2 ^ 24 - r.mgr.handleIndex.toNat) = 0 := by
      rw [SNHandleMgr.probe_eq_zero_iff]
      omega
    rcases Nat.lt_trichotomy j (2 ^ 24 - r.mgr.handleIndex.toNat) with early | at_ | late
    · have value := r.mgr.toNat_probe j
      rw [← here, Nat.mod_eq_of_lt (by omega)] at value
      refine taken slot ?_ ?_ free
      · rw [UInt32.le_iff_toNat_le]
        omega
      · rw [UInt32.le_iff_toNat_le]
        change slot.toNat ≤ 0xffffff
        omega
    · rw [at_, last] at here
      exact other here
    · refine before _ (by omega) late ?_
      rw [last, zero]

theorem toNat_lt_of_masked (slot : UInt32) (low : slot &&& handleMask = slot) :
    slot.toNat < 2 ^ 24 := by
  rw [← low, Words.toNat_and_mask 24 _ handleMask (by decide)]
  exact Nat.mod_lt _ (by decide)

theorem toNat_tagged (slot : UInt32) (harbor : UInt8) (small : slot.toNat < 2 ^ 24) :
    (slot ||| (harbor.toUInt32 &&& 0xff) <<< 24).toNat = harbor.toNat * 2 ^ 24 + slot.toNat := by
  have bound := harbor.toNat_lt
  have tag : ((harbor.toUInt32 &&& 0xff) <<< 24).toNat = harbor.toNat * 2 ^ 24 := by
    rw [UInt32.toNat_shiftLeft, Nat.shiftLeft_eq, Words.toNat_and_mask 8 _ 0xff (by decide),
      UInt8.toNat_toUInt32]
    change _ * 2 ^ 24 % 2 ^ 32 = _
    omega
  rw [UInt32.or_comm, Words.toNat_or_disjoint 24 _ _ ⟨harbor.toNat, by omega⟩ small, tag]

theorem fresh_iff (r : Registry) (harbor : UInt8) (slot : UInt32)
    (found : r.mgr.registerLoop (2 ^ 24) 0 = some slot)
    (tag : r.mgr.harbor = (harbor.toUInt32 &&& 0xff) <<< 24) :
    r.Fresh harbor (slot ||| r.mgr.harbor) ↔ slot ≠ 0 := by
  have low := registerLoop_masked r.mgr (2 ^ 24) 0 slot found
  have masked : (slot ||| r.mgr.harbor) &&& handleMask = slot := by
    rw [Words.or_and_right, tag, harbor_high, UInt32.or_zero, low]
  constructor
  · intro fresh
    have nonzero := fresh.nonzero
    rwa [masked] at nonzero
  · intro nonzero
    refine ⟨by rwa [masked], ?_, ?_, ?_⟩
    · intro invalid
      rw [invalid] at masked
      exact nonzero (masked.symm.trans (by decide))
    · rw [← UInt32.toNat_inj, Words.toNat_shiftRight_lt _ _ (by decide), tag,
        toNat_tagged slot harbor (toNat_lt_of_masked slot low), UInt8.toNat_toUInt32]
      have small := toNat_lt_of_masked slot low
      change _ / 2 ^ 24 = _
      omega
    · intro other context here same
      rw [SNHandleMgr.findContext, same, masked, registerLoop_free r.mgr (2 ^ 24) 0 slot found] at here
      contradiction

theorem register_fresh (harbor : UInt8) (sequence : List Call) (r : Registry)
    (reached : (new harbor.toUInt32).calls sequence = some r)
    (few : r.registeredCount < 2 ^ 24 - 1) :
    r.RegistersFresh harbor ↔
      r.mgr.slot 0 ≠ none ∨
        ∃ handle, r.mgr.handleIndex ≤ handle ∧ handle ≤ handleMask ∧ r.mgr.slot handle = none := by
  have inv := calls_indexed sequence harbor.toUInt32 r reached
  have tag := (calls_invariant sequence _ r _ (new_invariant harbor.toUInt32) reached).tag
  obtain ⟨slot, found⟩ := r.registerLoop_returns inv (by omega)
  have given : r.RegistersFresh harbor ↔ r.Fresh harbor (slot ||| r.mgr.harbor) := by
    simp only [RegistersFresh, SNHandleMgr.register, found, Option.map_some, Option.some.injEq,
      Prod.mk.injEq, and_assoc, exists_and_left, exists_eq_left']
  rw [given, r.fresh_iff harbor slot found tag, ne_eq, r.registerLoop_zero_iff inv slot found]
  push Not
  exact imp_iff_not_or

theorem registeredCount_le (r : Registry) (slots : Finset Nat)
    (only : ∀ n, n < 2 ^ 24 → r.mgr.slot (UInt32.ofNat n) ≠ none → n ∈ slots) :
    r.registeredCount ≤ slots.card := by
  apply Finset.card_le_card
  intro n here
  rw [Finset.mem_filter, Finset.mem_range] at here
  exact only n here.1 (Option.isSome_iff_ne_none.mp here.2)

def oneRemoved : List Call := [.register, .init 0, .register, .init 1, .remove 1]

theorem removed_register_fresh : ∃ r, (new 0).calls oneRemoved = some r ∧
    r.mgr.slot 1 = none ∧ r.mgr.slot 2 = some 1 ∧ r.registeredCount < 2 ^ 24 - 1 ∧
      r.RegistersFresh 0 := by
  obtain ⟨r, reached⟩ : ∃ r, (new 0).calls oneRemoved = some r := ⟨_, rfl⟩
  have first : r.mgr.slot 1 = none := by
    obtain rfl := Option.some.inj reached
    rfl
  have third : r.mgr.handleIndex = 3 ∧ r.mgr.slot 3 = none := by
    obtain rfl := Option.some.inj reached
    exact ⟨rfl, rfl⟩
  have second : r.mgr.slot 2 = some 1 := by
    obtain rfl := Option.some.inj reached
    rfl
  have others : ∀ handle, r.mgr.slot handle ≠ none → handle = 2 := by
    obtain rfl := Option.some.inj reached
    intro handle taken
    by_contra other
    refine taken ?_
    change Function.update (Function.update (Function.update (fun _ => none) 1 (some 0)) 2 (some 1))
      1 none handle = none
    by_cases same : handle = 1
    · rw [same, Function.update_self]
    · rw [Function.update_of_ne same, Function.update_of_ne other, Function.update_of_ne same]
  have few : r.registeredCount < 2 ^ 24 - 1 := by
    have one := r.registeredCount_le {2} fun n inside taken => by
      rw [Finset.mem_singleton, ← Nat.mod_eq_of_lt (inside.trans (by decide : 2 ^ 24 < 2 ^ 32)),
        ← UInt32.toNat_ofNat', others _ taken]
      rfl
    rw [Finset.card_singleton] at one
    omega
  refine ⟨r, reached, first, second, few, (register_fresh 0 oneRemoved r reached few).mpr (.inr ⟨3, ?_⟩)⟩
  rw [third.1]
  exact ⟨by decide, by decide, third.2⟩

def filled (n : Nat) : Registry where
  mgr :=
    { (SNHandleMgr.new 0 : SNHandleMgr Nat) with
      handleIndex := UInt32.ofNat (n + 1)
      slot := fun handle =>
        if 1 ≤ handle.toNat ∧ handle.toNat ≤ n then some (handle.toNat - 1) else none }
  contexts := n
  registered := fun context => if context < n then some (UInt32.ofNat (context + 1)) else none
  handle := fun _ => 0

theorem filled_zero : filled 0 = new 0 := by
  simp only [filled, new, SNHandleMgr.new, Registry.mk.injEq, SNHandleMgr.mk.injEq]
  refine ⟨⟨trivial, rfl, ?_, trivial⟩, trivial, ?_, trivial⟩
  · funext handle
    rw [if_neg (by omega)]
  · funext context
    rw [if_neg (by omega)]

theorem filled_register (n : Nat) (room : n + 1 < 2 ^ 24) :
    (filled n).call .register = some (filled (n + 1)) := by
  have index : (filled n).mgr.handleIndex.toNat = n + 1 := by
    change (UInt32.ofNat (n + 1)).toNat = n + 1
    rw [UInt32.toNat_ofNat']
    omega
  have here : (filled n).mgr.probe 0 = UInt32.ofNat (n + 1) := by
    rw [← UInt32.toNat_inj, SNHandleMgr.toNat_probe, index, UInt32.toNat_ofNat']
    omega
  have value : (UInt32.ofNat (n + 1)).toNat = n + 1 := index
  have free : (filled n).mgr.slot ((filled n).mgr.probe 0) = none := by
    rw [here]
    simp only [filled, value]
    rw [if_neg (by omega)]
  have found := (filled n).mgr.registerLoop_first (2 ^ 24) (by omega) free
  rw [here] at found
  simp only [call, SNHandleMgr.register, found, Option.map_some, Option.some.injEq]
  simp only [filled, SNHandleMgr.new, Registry.mk.injEq, SNHandleMgr.mk.injEq]
  refine ⟨⟨trivial, SNHandleMgr.ofNat_add_one _, ?_, trivial⟩, trivial, ?_, trivial⟩
  · funext handle
    by_cases same : handle = UInt32.ofNat (n + 1)
    · subst same
      rw [Function.update_self, value, if_pos (by omega)]
      rfl
    · rw [Function.update_of_ne same]
      have other : handle.toNat ≠ n + 1 := by
        rw [← value]
        exact fun equal => same (UInt32.toNat_inj.mp equal)
      congr 1
      rw [eq_iff_iff]
      omega
  · funext context
    by_cases same : context = n
    · subst same
      rw [Function.update_self, if_pos (by omega)]
      exact congrArg some (UInt32.or_zero)
    · rw [Function.update_of_ne same]
      congr 1
      rw [eq_iff_iff]
      omega

theorem filled_calls (count n : Nat) (room : n + count < 2 ^ 24) (rest : List Call) :
    (filled n).calls (List.replicate count .register ++ rest) = (filled (n + count)).calls rest := by
  induction count generalizing n with
  | zero => rfl
  | succ count ih =>
    rw [List.replicate_succ, List.cons_append, calls, Transition.run, filled_register n (by omega)]
    simp only
    rw [← calls, ih (n + 1) (by omega)]
    congr 2
    omega

def wrapped : List Call := List.replicate (2 ^ 24 - 1) .register ++ [.init 0, .remove 1]

def givenBack (n : Nat) : Registry :=
  { filled n with
    handle := Function.update (filled n).handle 0 1
    mgr := { (filled n).mgr with slot := Function.update (filled n).mgr.slot 1 none } }

theorem filled_given_back (n : Nat) (some_context : 1 ≤ n) :
    (filled n).calls [.init 0, .remove 1] = some (givenBack n) := by
  have registered : (filled n).registered 0 = some 1 := if_pos some_context
  have here : (filled n).mgr.slot 1 = some 0 := if_pos ⟨le_rfl, some_context⟩
  have masked : (1 : UInt32) &&& handleMask = 1 := by decide
  have unnamed : (filled n).mgr.nameMap = fun _ => none := rfl
  simp [calls, Transition.run, call, SNHandleMgr.remove, registered, here, masked, givenBack, unnamed]

theorem wrapped_reached : (new 0).calls wrapped = some (givenBack (2 ^ 24 - 1)) := by
  rw [wrapped, ← filled_zero, filled_calls (2 ^ 24 - 1) 0 (by omega), Nat.zero_add,
    filled_given_back (2 ^ 24 - 1) (by omega)]

theorem givenBack_slot (n : Nat) (handle : UInt32) (small : handle.toNat ≤ 1) :
    (givenBack n).mgr.slot handle = none := by
  by_cases one : handle = 1
  · simp only [givenBack, one, Function.update_self]
  · have zero : ¬1 ≤ handle.toNat := by
      intro positive
      exact one (UInt32.toNat_inj.mp (Nat.le_antisymm small positive))
    simp only [givenBack, filled]
    rw [Function.update_of_ne one, if_neg (fun between => zero between.1)]

theorem givenBack_few (n : Nat) : (givenBack n).registeredCount < 2 ^ 24 - 1 := by
  have bound := (givenBack n).registeredCount_le (Finset.Ico 2 (2 ^ 24)) (by
    intro n within taken
    by_contra outside
    rw [Finset.mem_Ico] at outside
    refine taken (givenBack_slot _ _ ?_)
    rw [UInt32.toNat_ofNat']
    omega)
  rw [Nat.card_Ico] at bound
  omega

theorem register_gives_zero :
    ∃ r mgr, (new 0).calls wrapped = some r ∧ r.registeredCount < 2 ^ 24 - 1 ∧
      r.mgr.register r.contexts = some (invalidHandle, mgr) ∧ ¬r.RegistersFresh 0 := by
  generalize size : 2 ^ 24 - 1 = n
  have reached := wrapped_reached
  rw [size] at reached
  have few := givenBack_few n
  rw [size] at few
  have index : (givenBack n).mgr.handleIndex = UInt32.ofNat (n + 1) := rfl
  have zero : (givenBack n).mgr.probe 0 = 0 := by
    rw [SNHandleMgr.probe_eq_zero_iff, index, UInt32.toNat_ofNat']
    omega
  have found := (givenBack n).mgr.registerLoop_first (2 ^ 24) (by omega)
    (by rw [zero]; exact givenBack_slot n 0 (by decide))
  rw [zero] at found
  obtain ⟨mgr, given⟩ : ∃ mgr,
      (givenBack n).mgr.register (givenBack n).contexts = some (invalidHandle, mgr) := by
    have tag : (givenBack n).mgr.harbor = 0 := rfl
    rw [SNHandleMgr.register, found, tag, Option.map_some]
    exact ⟨_, rfl⟩
  refine ⟨givenBack n, mgr, reached, few, given, ?_⟩
  rintro ⟨handle, after, same, fresh⟩
  rw [given, Option.some.injEq, Prod.mk.injEq] at same
  exact fresh.valid same.1.symm

end Registry

end Pskynet.Server
