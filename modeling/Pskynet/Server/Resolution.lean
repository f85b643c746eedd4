import Mathlib.Tactic
import Pskynet.Server.Registration
import Pskynet.Server.Send

set_option autoImplicit false

namespace Pskynet.Server

-- The registry with the two fields of the contexts that the commands here write; a `FILE *`
-- is a number.
structure Services where
  registry : Registry
  logfile : Nat → Option Nat
  endless : Nat → Bool

def tohandle (r : Registry) (param : List Char) : UInt32 :=
  match param with
  | ':' :: text => UInt32.ofNat (Sending.strtoul16 text).toNat
  | '.' :: name => r.mgr.findName (String.ofList name)
  | _ => 0

namespace Services

-- `file` is what `sn_log_open` returns.
def cmdLogon (s : Services) (param : List Char) (file : Option Nat) : Services :=
  let handle := tohandle s.registry param
  if handle = 0 then s
  else
    match s.registry.mgr.findContext handle with
    | none => s
    | some context =>
        match s.logfile context, file with
        | none, some f => { s with logfile := Function.update s.logfile context (some f) }
        | _, _ => s

def cmdLogoff (s : Services) (param : List Char) : Services :=
  let handle := tohandle s.registry param
  if handle = 0 then s
  else
    match s.registry.mgr.findContext handle with
    | none => s
    | some context =>
        match s.logfile context with
        | some _ => { s with logfile := Function.update s.logfile context none }
        | none => s

-- `SNServer::Endless`, which the monitor calls.
def endlessContext (s : Services) (handle : UInt32) : Services :=
  match s.registry.mgr.findContext handle with
  | none => s
  | some context => { s with endless := Function.update s.endless context true }

-- No command that is given `handle` has an effect.
structure Inert (s : Services) (handle : UInt32) : Prop where
  logon : ∀ param file, tohandle s.registry param = handle → s.cmdLogon param file = s
  logoff : ∀ param, tohandle s.registry param = handle → s.cmdLogoff param = s
  endless : s.endlessContext handle = s

theorem inert_of_not_found (s : Services) (handle : UInt32)
    (absent : s.registry.mgr.findContext handle = none) : s.Inert handle := by
  refine ⟨?_, ?_, ?_⟩
  · rintro param file rfl
    simp only [cmdLogon, absent, ite_self]
  · rintro param rfl
    simp only [cmdLogoff, absent, ite_self]
  · simp only [endlessContext, absent]

end Services

namespace Registry

-- A handle is resolved exactly when only its own context answers to it, and the commands
-- leave the services alone when it belongs to another harbor.
structure Resolves (r : Registry) (harbor : UInt8) (handle : UInt32) : Prop where
  own : ∀ context, r.mgr.findContext handle = some context → r.registered context = some handle
  foreign : handle >>> 24 ≠ harbor.toUInt32 →
    ∀ s : Services, s.registry = r → s.Inert handle

structure Known (r : Registry) : Prop where
  low : ∀ slot context, r.mgr.slot slot = some context → slot &&& handleMask = slot
  given : ∀ slot context, r.mgr.slot slot = some context →
    r.registered context = some (slot ||| r.mgr.harbor)
  counted : ∀ slot context, r.mgr.slot slot = some context → context < r.contexts

theorem new_known (harbor : UInt32) : Known (new harbor) := by
  refine ⟨?_, ?_, ?_⟩ <;> simp [new, SNHandleMgr.new]

theorem call_known (r next : Registry) (c : Call) (inv : Known r) (step : r.call c = some next) :
    Known next := by
  cases c with
  | register =>
    simp only [call, SNHandleMgr.register, Option.map_map, Option.map_eq_some_iff] at step
    obtain ⟨slot, found, rfl⟩ := step
    have masked := registerLoop_masked r.mgr (2 ^ 24) 0 slot found
    -- The new context is at the slot that was found, the others where they were.
    have cases_ : ∀ other context,
        Function.update r.mgr.slot slot (some r.contexts) other = some context →
          (other = slot ∧ context = r.contexts) ∨ r.mgr.slot other = some context := by
      intro other context here
      by_cases same : other = slot
      · subst same
        rw [Function.update_self, Option.some.injEq] at here
        exact .inl ⟨rfl, here.symm⟩
      · rw [Function.update_of_ne same] at here
        exact .inr here
    refine ⟨?_, ?_, ?_⟩
    · intro other context here
      rcases cases_ other context here with ⟨rfl, _⟩ | before
      · exact masked
      · exact inv.low other context before
    · intro other context here
      rcases cases_ other context here with ⟨rfl, rfl⟩ | before
      · exact Function.update_self ..
      · have older := inv.counted other context before
        exact (Function.update_of_ne older.ne _ _).trans (inv.given other context before)
    · intro other context here
      rcases cases_ other context here with ⟨_, rfl⟩ | before
      · exact Nat.lt_succ_self _
      · exact Nat.lt_succ_of_lt (inv.counted other context before)
  | init context =>
    simp only [call, Option.map_eq_some_iff] at step
    obtain ⟨handle, _, rfl⟩ := step
    exact ⟨inv.low, inv.given, inv.counted⟩
  | nameHandle handle name =>
    simp only [call, SNHandleMgr.nameHandle, Option.some.injEq] at step
    subst step
    split <;> exact ⟨inv.low, inv.given, inv.counted⟩
  | remove handle =>
    simp only [call, Option.some.injEq] at step
    subst step
    refine ⟨?_, ?_, ?_⟩
    · intro slot context left
      exact inv.low slot context (remove_slot _ _ _ _ _ left)
    · intro slot context left
      change r.registered context = some (slot ||| (r.mgr.remove r.handle handle).2.harbor)
      rw [remove_harbor]
      exact inv.given slot context (remove_slot _ _ _ _ _ left)
    · intro slot context left
      exact inv.counted slot context (remove_slot _ _ _ _ _ left)

theorem calls_known (sequence : List Call) (harbor : UInt32) (r : Registry)
    (reached : (new harbor).calls sequence = some r) : Known r :=
  Transition.run_invariant call Known (fun r c next inv step => call_known r next c inv step)
    sequence (new harbor) r (new_known harbor) reached

theorem retagged_iff (harbor : UInt8) (handle : UInt32) :
    handle &&& handleMask ||| (harbor.toUInt32 &&& 0xff) <<< 24 = handle ↔
      handle >>> 24 = harbor.toUInt32 := by
  have masked : (handle &&& handleMask).toNat = handle.toNat % 2 ^ 24 :=
    Words.toNat_and_mask 24 _ handleMask (by decide)
  rw [← UInt32.toNat_inj, toNat_tagged _ harbor (by omega), masked, ← UInt32.toNat_inj,
    Words.toNat_shiftRight_lt _ _ (by decide), UInt8.toNat_toUInt32]
  change _ ↔ _ / 2 ^ 24 = _
  omega

theorem findContext_exact (harbor : UInt8) (sequence : List Call) (r : Registry)
    (reached : (new harbor.toUInt32).calls sequence = some r) (handle : UInt32) :
    r.Resolves harbor handle ↔
      r.mgr.slot (handle &&& handleMask) = none ∨ handle >>> 24 = harbor.toUInt32 := by
  have known := calls_known sequence harbor.toUInt32 r reached
  have tag := (calls_invariant sequence _ r _ (new_invariant harbor.toUInt32) reached).tag
  constructor
  · intro resolves
    cases here : r.mgr.slot (handle &&& handleMask) with
    | none => exact .inl rfl
    | some context =>
      have given := known.given _ context here
      rw [resolves.own context here, Option.some.injEq, tag] at given
      exact .inr ((retagged_iff harbor handle).mp given.symm)
  · intro condition
    constructor
    · intro context here
      rcases condition with absent | same
      · rw [SNHandleMgr.findContext, absent] at here
        contradiction
      · have given := known.given _ context here
        rwa [tag, (retagged_iff harbor handle).mpr same] at given
    · rintro foreign s rfl
      rcases condition with absent | same
      · exact s.inert_of_not_found handle absent
      · exact absurd same foreign

def launched (harbor : UInt32) : Registry := ((new harbor).call .register).getD (new harbor)

theorem own_handle_resolved :
    (new 1).calls [.register] = some (launched 1) ∧ (launched 1).Resolves 1 0x1000001 := by
  have reached : (new (1 : UInt8).toUInt32).calls [.register] = some (launched 1) := rfl
  exact ⟨reached, (findContext_exact 1 [.register] _ reached 0x1000001).mpr (.inr (by decide))⟩

theorem foreign_handle_resolved :
    ∃ r, (new 1).calls [.register] = some r ∧ r.registered 0 = some 0x1000001 ∧
      r.mgr.findContext 0x2000001 = some 0 ∧ ¬r.Resolves 1 0x2000001 ∧
      (Services.cmdLogon ⟨r, fun _ => none, fun _ => false⟩ ":2000001".toList (some 7)).logfile 0 =
        some 7 ∧
      (Services.endlessContext ⟨r, fun _ => none, fun _ => false⟩ 0x2000001).endless 0 = true := by
  refine ⟨launched 1, rfl, rfl, rfl, ?_, rfl, rfl⟩
  intro resolves
  have own := resolves.own 0 rfl
  have given : (launched 1).registered 0 = some 0x1000001 := rfl
  rw [given] at own
  exact absurd own (by decide)

end Registry

end Pskynet.Server
