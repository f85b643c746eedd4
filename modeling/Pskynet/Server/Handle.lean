import Mathlib.Data.UInt
import Mathlib.Logic.Function.Basic
import Mathlib.Tactic
import Pskynet.Shared.Transition
import Pskynet.Shared.Words

set_option autoImplicit false

namespace Pskynet.Server

def handleMask : UInt32 := 0xffffff
def handleRemoteShift : Nat := 24

def ptypeText : Nat := 0
def ptypeResponse : Nat := 1

-- `sn_message`: a null `data` pointer is `none`, and the message type rides in
-- the bits of `sz` from `handleRemoteShift` on.
structure SnMessage where
  source : UInt32
  session : Int
  data : Option (List UInt8)
  sz : Nat
  deriving DecidableEq, Repr

-- `SNHandleMgr`: `Ctx` stands for the shared pointers to contexts, and the two
-- unordered maps are partial functions.
structure SNHandleMgr (Ctx : Type) where
  harbor : UInt32
  handleIndex : UInt32
  slot : UInt32 → Option Ctx
  nameMap : String → Option UInt32

namespace SNHandleMgr

variable {Ctx : Type}

def new (harbor : UInt32) : SNHandleMgr Ctx where
  harbor := (harbor &&& 0xff) <<< 24
  handleIndex := 1
  slot := fun _ => none
  nameMap := fun _ => none

-- The loop of `Register` looks at every slot once in 2^24 turns; with none of them
-- free it does not return.
def registerLoop (mgr : SNHandleMgr Ctx) : Nat → UInt32 → Option UInt32
  | 0, _ => none
  | turns + 1, i =>
      let handle := (mgr.handleIndex + i) &&& handleMask
      match mgr.slot handle with
      | none => some handle
      | some _ => registerLoop mgr turns (i + 1)

def register (mgr : SNHandleMgr Ctx) (context : Ctx) : Option (UInt32 × SNHandleMgr Ctx) :=
  (registerLoop mgr (2 ^ 24) 0).map fun handle =>
    (handle ||| mgr.harbor,
      { mgr with
        slot := Function.update mgr.slot handle (some context)
        handleIndex := handle + 1 })

-- `handleOf` reads `SNContext::Handle()`.
def remove (mgr : SNHandleMgr Ctx) (handleOf : Ctx → UInt32) (handle : UInt32) :
    Option Ctx × SNHandleMgr Ctx :=
  let handle := handle &&& handleMask
  match mgr.slot handle with
  | some context =>
      if handleOf context = handle then
        (some context,
          { mgr with
            slot := Function.update mgr.slot handle none
            nameMap := fun name =>
              if mgr.nameMap name = some handle then none else mgr.nameMap name })
      else (none, mgr)
  | none => (none, mgr)

def findContext (mgr : SNHandleMgr Ctx) (handle : UInt32) : Option Ctx :=
  mgr.slot (handle &&& handleMask)

def findName (mgr : SNHandleMgr Ctx) (name : String) : UInt32 :=
  (mgr.nameMap name).getD 0

def nameHandle (mgr : SNHandleMgr Ctx) (handle : UInt32) (name : String) :
    Option String × SNHandleMgr Ctx :=
  match mgr.nameMap name with
  | some _ => (none, mgr)
  | none => (some name, { mgr with nameMap := Function.update mgr.nameMap name (some handle) })

end SNHandleMgr

-- The registry with the contexts it is used for: `registered` is the handle that
-- `NewContext` got for a context, `handle` the field that `SNContext::Init` fills with it.
structure Registry where
  mgr : SNHandleMgr Nat
  contexts : Nat
  registered : Nat → Option UInt32
  handle : Nat → UInt32

namespace Registry

inductive Call where
  | register
  | init (context : Nat)
  | nameHandle (handle : UInt32) (name : String)
  | remove (handle : UInt32)

def new (harbor : UInt32) : Registry where
  mgr := .new harbor
  contexts := 0
  registered := fun _ => none
  handle := fun _ => 0

def call (r : Registry) : Call → Option Registry
  | .register =>
      (r.mgr.register r.contexts).map fun (handle, mgr) =>
        { r with
          mgr := mgr
          contexts := r.contexts + 1
          registered := Function.update r.registered r.contexts (some handle) }
  | .init context =>
      (r.registered context).map fun handle =>
        { r with handle := Function.update r.handle context handle }
  | .nameHandle handle name => some { r with mgr := (r.mgr.nameHandle handle name).2 }
  | .remove handle => some { r with mgr := (r.mgr.remove r.handle handle).2 }

def calls (r : Registry) (sequence : List Call) : Option Registry :=
  Transition.run call r sequence

def Live (r : Registry) (handle : UInt32) (context : Nat) : Prop :=
  r.registered context = some handle ∧ r.handle context = handle ∧
    r.mgr.findContext handle = some context

-- What `Remove` is for: the context goes, with its names, and nothing else does.
structure Removes (r : Registry) (handle : UInt32) (context : Nat) : Prop where
  returned : (r.mgr.remove r.handle handle).1 = some context
  gone : (r.mgr.remove r.handle handle).2.findContext handle = none
  unnamed : ∀ name, (r.mgr.remove r.handle handle).2.nameMap name ≠ some handle
  others : ∀ other, other &&& handleMask ≠ handle &&& handleMask →
    (r.mgr.remove r.handle handle).2.findContext other = r.mgr.findContext other
  names : ∀ name, r.mgr.nameMap name ≠ some handle →
    (r.mgr.remove r.handle handle).2.nameMap name = r.mgr.nameMap name

structure Invariant (r : Registry) (harbor : UInt32) : Prop where
  tag : r.mgr.harbor = harbor
  tagged : ∀ context handle, r.registered context = some handle →
    ∃ slot, slot &&& handleMask = slot ∧ handle = slot ||| harbor

theorem registerLoop_masked (mgr : SNHandleMgr Nat) (turns : Nat) (i handle : UInt32)
    (found : mgr.registerLoop turns i = some handle) : handle &&& handleMask = handle := by
  induction turns generalizing i with
  | zero => simp [SNHandleMgr.registerLoop] at found
  | succ turns ih =>
    simp only [SNHandleMgr.registerLoop] at found
    split at found
    · simp only [Option.some.injEq] at found
      rw [← found, UInt32.and_assoc, UInt32.and_self]
    · exact ih _ found

theorem registerLoop_free (mgr : SNHandleMgr Nat) (turns : Nat) (i handle : UInt32)
    (found : mgr.registerLoop turns i = some handle) : mgr.slot handle = none := by
  induction turns generalizing i with
  | zero => simp [SNHandleMgr.registerLoop] at found
  | succ turns ih =>
    simp only [SNHandleMgr.registerLoop] at found
    split at found
    · rename_i free
      simp only [Option.some.injEq] at found
      rwa [← found]
    · exact ih _ found

theorem register_slot (mgr next : SNHandleMgr Nat) (context : Nat) (handle : UInt32)
    (tag : mgr.harbor &&& handleMask = 0) (given : mgr.register context = some (handle, next)) :
    next.harbor = mgr.harbor ∧ mgr.slot (handle &&& handleMask) = none ∧
      next.slot = Function.update mgr.slot (handle &&& handleMask) (some context) := by
  simp only [SNHandleMgr.register, Option.map_eq_some_iff, Prod.mk.injEq] at given
  obtain ⟨slot, found, rfl, rfl⟩ := given
  have masked : (slot ||| mgr.harbor) &&& handleMask = slot := by
    rw [Words.or_and_right, tag, UInt32.or_zero, registerLoop_masked _ _ _ _ found]
  rw [masked]
  exact ⟨rfl, registerLoop_free _ _ _ _ found, rfl⟩

theorem remove_slot (mgr : SNHandleMgr Nat) (handleOf : Nat → UInt32) (handle slot : UInt32)
    (context : Nat) (left : (mgr.remove handleOf handle).2.slot slot = some context) :
    mgr.slot slot = some context := by
  simp only [SNHandleMgr.remove] at left
  split at left
  · split_ifs at left
    · by_cases same : slot = handle &&& handleMask <;> simp_all
    · exact left
  · exact left

theorem remove_returned (mgr : SNHandleMgr Nat) (handleOf : Nat → UInt32) (handle : UInt32)
    (context : Nat) (returned : (mgr.remove handleOf handle).1 = some context) :
    mgr.slot (handle &&& handleMask) = some context := by
  simp only [SNHandleMgr.remove] at returned
  split at returned
  · rename_i found
    split_ifs at returned
    rwa [← returned]
  · contradiction

theorem remove_harbor (mgr : SNHandleMgr Nat) (handleOf : Nat → UInt32) (handle : UInt32) :
    (mgr.remove handleOf handle).2.harbor = mgr.harbor := by
  simp only [SNHandleMgr.remove]
  split
  · split_ifs <;> rfl
  · rfl

theorem call_invariant (r next : Registry) (harbor : UInt32) (c : Call)
    (inv : Invariant r harbor) (step : r.call c = some next) : Invariant next harbor := by
  cases c with
  | register =>
    simp only [call, SNHandleMgr.register, Option.map_map, Option.map_eq_some_iff] at step
    obtain ⟨slot, found, rfl⟩ := step
    refine ⟨inv.tag, ?_⟩
    intro context handle given
    by_cases same : context = r.contexts
    · subst same
      refine ⟨slot, registerLoop_masked _ _ _ _ found, ?_⟩
      simpa [inv.tag, eq_comm] using given
    · exact inv.tagged context handle (by simpa [same] using given)
  | init context =>
    simp only [call, Option.map_eq_some_iff] at step
    obtain ⟨handle, _, rfl⟩ := step
    exact ⟨inv.tag, inv.tagged⟩
  | nameHandle handle name =>
    simp only [call, SNHandleMgr.nameHandle, Option.some.injEq] at step
    subst step
    split <;> exact ⟨inv.tag, inv.tagged⟩
  | remove handle =>
    simp only [call, Option.some.injEq] at step
    subst step
    exact ⟨by rw [remove_harbor]; exact inv.tag, inv.tagged⟩

theorem calls_invariant (sequence : List Call) (r final : Registry) (harbor : UInt32)
    (inv : Invariant r harbor) (steps : r.calls sequence = some final) :
    Invariant final harbor :=
  Transition.run_invariant call (Invariant · harbor)
    (fun r c next inv step => call_invariant r next harbor c inv step) sequence r final inv steps

theorem new_invariant (harbor : UInt32) : Invariant (new harbor) ((harbor &&& 0xff) <<< 24) :=
  ⟨rfl, by simp [new]⟩

theorem removes_iff (r : Registry) (handle : UInt32) (context : Nat) (live : r.Live handle context) :
    r.Removes handle context ↔ handle &&& handleMask = handle := by
  obtain ⟨_, field, found⟩ := live
  unfold SNHandleMgr.findContext at found
  constructor
  · intro removes
    have returned := removes.returned
    simp only [SNHandleMgr.remove, found, field] at returned
    split_ifs at returned with same
    exact same.symm
  · intro masked
    rw [masked] at found
    have removed : r.mgr.remove r.handle handle =
        (some context,
          { r.mgr with
            slot := Function.update r.mgr.slot handle none
            nameMap := fun name =>
              if r.mgr.nameMap name = some handle then none else r.mgr.nameMap name }) := by
      simp [SNHandleMgr.remove, masked, found, field]
    refine ⟨?_, ?_, ?_, ?_, ?_⟩ <;> rw [removed]
    · simp [SNHandleMgr.findContext, masked]
    · intro name
      by_cases named : r.mgr.nameMap name = some handle <;> simp [named]
    · intro other different
      rw [masked] at different
      simp [SNHandleMgr.findContext, different]
    · intro name other
      simp [other]

theorem tag_masked_iff (slot harbor : UInt32) (low : slot &&& handleMask = slot)
    (high : harbor &&& handleMask = 0) :
    (slot ||| harbor) &&& handleMask = slot ||| harbor ↔ harbor = 0 := by
  constructor
  · intro same
    apply UInt32.toBitVec_inj.mp
    apply BitVec.eq_of_getLsbD_eq
    intro i bound
    have lowBit := congrArg (fun word => word.toBitVec.getLsbD i) low
    have highBit := congrArg (fun word => word.toBitVec.getLsbD i) high
    have sameBit := congrArg (fun word => word.toBitVec.getLsbD i) same
    simp only [UInt32.toBitVec_and, UInt32.toBitVec_or, BitVec.getLsbD_and, BitVec.getLsbD_or,
      UInt32.toBitVec_ofNat, BitVec.getLsbD_zero] at lowBit highBit sameBit ⊢
    generalize slot.toBitVec.getLsbD i = s at *
    generalize harbor.toBitVec.getLsbD i = h at *
    generalize handleMask.toBitVec.getLsbD i = m at *
    revert s h m
    decide
  · rintro rfl
    rw [UInt32.or_zero, low]

theorem harbor_high (harbor : UInt8) : (harbor.toUInt32 &&& 0xff) <<< 24 &&& handleMask = 0 := by
  rw [← UInt32.toNat_inj, Words.toNat_and_mask 24 _ handleMask (by decide), UInt32.toNat_shiftLeft,
    Nat.shiftLeft_eq]
  change _ * 2 ^ 24 % 2 ^ 32 % 2 ^ 24 = 0
  omega

theorem harbor_zero_iff (harbor : UInt8) : (harbor.toUInt32 &&& 0xff) <<< 24 = 0 ↔ harbor = 0 := by
  have bound := harbor.toNat_lt
  rw [← UInt32.toNat_inj, ← UInt8.toNat_inj, UInt32.toNat_shiftLeft, Nat.shiftLeft_eq,
    Words.toNat_and_mask 8 _ 0xff (by decide), UInt8.toNat_toUInt32]
  change _ * 2 ^ 24 % 2 ^ 32 = 0 ↔ _ = 0
  omega

theorem remove_exact (harbor : UInt8) (sequence : List Call) (r : Registry)
    (reached : (new harbor.toUInt32).calls sequence = some r)
    (handle : UInt32) (context : Nat) (live : r.Live handle context) :
    r.Removes handle context ↔ harbor = 0 := by
  have inv := calls_invariant sequence _ r _ (new_invariant harbor.toUInt32) reached
  obtain ⟨slot, low, tagged⟩ := inv.tagged context handle live.1
  rw [removes_iff r handle context live, tagged, tag_masked_iff slot _ low (harbor_high harbor),
    harbor_zero_iff harbor]

def named (handle : UInt32) : List Call := [.register, .init 0, .nameHandle handle "launcher"]

def namedRegistry (harbor : UInt32) : Registry :=
  ((new harbor).calls (named (harbor <<< 24 ||| 1))).getD (new harbor)

theorem named_context_removed :
    (new 0).calls (named 1) = some (namedRegistry 0) ∧ (namedRegistry 0).Live 1 0 ∧
      (namedRegistry 0).Removes 1 0 := by
  have reached : (new (0 : UInt8).toUInt32).calls (named 1) = some (namedRegistry 0) := rfl
  have live : (namedRegistry 0).Live 1 0 := ⟨rfl, rfl, rfl⟩
  exact ⟨reached, live, (remove_exact 0 (named 1) _ reached 1 0 live).mpr rfl⟩

theorem remove_keeps_harbor_context :
    ∃ r, (new 1).calls (named 0x1000001) = some r ∧ r.Live 0x1000001 0 ∧
      ¬r.Removes 0x1000001 0 := by
  refine ⟨namedRegistry 1, rfl, ⟨rfl, rfl, rfl⟩, ?_⟩
  intro removes
  have returned := removes.returned
  have kept : ((namedRegistry 1).mgr.remove (namedRegistry 1).handle 0x1000001).1 = none := rfl
  rw [kept] at returned
  contradiction

end Registry

end Pskynet.Server
