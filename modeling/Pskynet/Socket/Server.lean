import Mathlib.Logic.Function.Basic
import Mathlib.Tactic
import Pskynet.Shared.Transition
import Pskynet.Socket.Slot

set_option autoImplicit false

namespace Pskynet.Socket

def maxSocket : Nat := 2 ^ 16

def hashId (id : Int32) : Nat := id.toUInt32.toNat % maxSocket

-- `socket_server`, with the number of increments of `alloc_id` so far and the ids that were
-- returned, each with the number of increments at its return.
structure Server where
  allocId : Int32
  slot : Nat → SnSocket
  increments : Nat
  given : List (Int32 × Nat)

inductive Action where
  | reserve
  | command (c : Command) (u : Results)
  | callback (i : Nat) (k : Callback) (u : Results)
  | connection (i : Nat) (peer : Payload) (u : Results)

namespace Server

-- `memory` is what `socket_server_create` finds in the fields it does not write.
def create (memory : Nat → SnSocket) (allocId : Int32) : Server where
  allocId := allocId
  slot := fun i =>
    { memory i with
      type := .invalid
      high := []
      low := []
      handle := .absent
      reading := false
      listening := false
      connecting := false
      requests := []
      closeCalled := false
      misused := false
      asserted := false
      promised := false }
  increments := 0
  given := []

def setSlot (sv : Server) (i : Nat) (s : SnSocket) : Server :=
  { sv with slot := Function.update sv.slot i s }

-- `++ss->alloc_id`, with the mask that takes a negative number back to the range of ids.
def nextId (allocId : Int32) : Int32 :=
  let id := allocId + 1
  if id < 0 then id &&& 0x7fffffff else id

-- The loop of `reserve_id`; the calls are made one at a time, so the exchange succeeds.
def reserveLoop (promised : Bool) : Nat → Server → Option Int32 × Server
  | 0, sv => (none, sv)
  | turns + 1, sv =>
      let id := nextId sv.allocId
      let sv := { sv with allocId := id, increments := sv.increments + 1 }
      let s := sv.slot (hashId id)
      if s.type = .invalid then
        (some id,
          { sv.setSlot (hashId id) (s.reserve id promised) with
            given := sv.given ++ [(id, sv.increments)] })
      else reserveLoop promised turns sv

def reserveId (sv : Server) (promised : Bool) : Option Int32 × Server :=
  reserveLoop promised maxSocket sv

def reportAccept (sv : Server) (i : Nat) (peer : Payload) (u : Results) :
    Option (Server × List Event) :=
  match sv.reserveId false with
  | (none, sv) => some (sv, [])
  | (some id, sv) =>
      match (sv.slot (hashId id)).accepted id (sv.slot i).opaqueValue u with
      | none => none
      | some (ns, false) => some (sv.setSlot (hashId id) ns, [])
      | some (ns, true) =>
          let sv := sv.setSlot (hashId id) ns
          some (sv,
            [{ code := .accept,
               result := some ⟨(sv.slot i).id, (sv.slot i).opaqueValue, id.toInt, peer⟩ }])

def step (sv : Server) : Action → Option (Server × List Event)
  | .reserve => some ((sv.reserveId true).2, [])
  | .command c u =>
      ((sv.slot (hashId c.id)).ctrlCmd c u).map fun (s, events) =>
        (sv.setSlot (hashId c.id) s, events)
  | .callback i k u =>
      if i < maxSocket then
        ((sv.slot i).callback k u).map fun (s, events) => (sv.setSlot i s, events)
      else none
  | .connection i peer u =>
      if i < maxSocket ∧ (sv.slot i).handle = .opened ∧ (sv.slot i).listening then
        sv.reportAccept i peer u
      else none

def next (sv : Server) (a : Action) : Option Server := (sv.step a).map Prod.fst

theorem reserveLoop_slots (promised : Bool) (turns : Nat) (sv : Server) :
    match reserveLoop promised turns sv with
    | (none, after) => after.slot = sv.slot
    | (some id, after) => (sv.slot (hashId id)).type = .invalid ∧
        after.slot = Function.update sv.slot (hashId id) ((sv.slot (hashId id)).reserve id promised) := by
  induction turns generalizing sv with
  | zero => rfl
  | succ turns ih =>
    simp only [reserveLoop]
    split_ifs with free
    · exact ⟨free, rfl⟩
    · exact ih _

theorem reserveId_none (sv after : Server) (promised : Bool)
    (full : sv.reserveId promised = (none, after)) : after.slot = sv.slot := by
  have spec := reserveLoop_slots promised maxSocket sv
  rw [reserveId] at full
  rwa [full] at spec

theorem reserveId_some (sv after : Server) (promised : Bool) (id : Int32)
    (found : sv.reserveId promised = (some id, after)) :
    (sv.slot (hashId id)).type = .invalid ∧
      after.slot = Function.update sv.slot (hashId id) ((sv.slot (hashId id)).reserve id promised) := by
  have spec := reserveLoop_slots promised maxSocket sv
  rw [reserveId] at found
  rwa [found] at spec

section Slots

-- A property of the slots, which can name the index of the slot, that every operation on one slot
-- keeps. `allowed` restricts the commands.
variable {P : Nat → SnSocket → Prop} {allowed : SnSocket → Command → Results → Prop}

structure Kept (P : Nat → SnSocket → Prop) (allowed : SnSocket → Command → Results → Prop) :
    Prop where
  reserve : ∀ s id promised, P (hashId id) s → s.type = .invalid →
    P (hashId id) (s.reserve id promised)
  accepted : ∀ s id opaqueValue u after made, P (hashId id) s → s.type = .reserve →
    s.promised = false → s.accepted id opaqueValue u = some (after, made) → P (hashId id) after
  command : ∀ s c u after events, P (hashId c.id) s → allowed s c u →
    s.ctrlCmd c u = some (after, events) → P (hashId c.id) after
  callback : ∀ i s k u after events, P i s → s.callback k u = some (after, events) → P i after

def Allows (allowed : SnSocket → Command → Results → Prop) (sv : Server) : Action → Prop
  | .command c u => allowed (sv.slot (hashId c.id)) c u
  | _ => True

theorem setSlot_all (sv : Server) (i : Nat) (s : SnSocket) (all : ∀ i, P i (sv.slot i))
    (here : P i s) : ∀ j, P j ((sv.setSlot i s).slot j) := by
  intro j
  by_cases same : j = i
  · subst same
    simpa [setSlot] using here
  · simpa [setSlot, same] using all j

theorem reserveId_all (kept : Kept P allowed) (sv : Server) (promised : Bool)
    (all : ∀ i, P i (sv.slot i)) : ∀ i, P i ((sv.reserveId promised).2.slot i) := by
  rcases found : sv.reserveId promised with ⟨_ | id, after⟩
  · rw [reserveId_none sv after promised found]
    exact all
  · obtain ⟨free, slots⟩ := reserveId_some sv after promised id found
    rw [slots]
    exact setSlot_all sv _ _ all (kept.reserve _ id promised (all _) free)

theorem next_all (kept : Kept P allowed) (sv after : Server) (a : Action)
    (all : ∀ i, P i (sv.slot i)) (allow : sv.Allows allowed a) (taken : sv.next a = some after) :
    ∀ i, P i (after.slot i) := by
  simp only [next, Option.map_eq_some_iff, Prod.exists, exists_and_right, exists_eq_right] at taken
  obtain ⟨events, taken⟩ := taken
  cases a with
  | reserve =>
    simp only [step, Option.some.injEq, Prod.mk.injEq] at taken
    rw [← taken.1]
    exact reserveId_all kept sv true all
  | command c u =>
    simp only [step, Option.map_eq_some_iff, Prod.exists, Prod.mk.injEq] at taken
    obtain ⟨s, _, done, rfl, rfl⟩ := taken
    exact setSlot_all sv _ s all (kept.command _ c u s _ (all _) allow done)
  | callback i k u =>
    simp only [step] at taken
    split_ifs at taken
    simp only [Option.map_eq_some_iff, Prod.exists, Prod.mk.injEq] at taken
    obtain ⟨s, _, done, rfl, rfl⟩ := taken
    exact setSlot_all sv _ s all (kept.callback i _ k u s _ (all _) done)
  | connection i peer u =>
    simp only [step] at taken
    split_ifs at taken
    have reserved := reserveId_all kept sv false all
    simp only [reportAccept] at taken
    rcases found : sv.reserveId false with ⟨_ | id, middle⟩ <;> rw [found] at taken reserved
    · simp only [Option.some.injEq, Prod.mk.injEq] at taken
      rw [← taken.1]
      exact reserved
    · obtain ⟨_, slots⟩ := reserveId_some sv middle false id found
      have here : middle.slot (hashId id) = (sv.slot (hashId id)).reserve id false := by
        rw [slots, Function.update_self]
      have keeps : ∀ ns made, (middle.slot (hashId id)).accepted id (middle.slot i).opaqueValue u =
          some (ns, made) → ∀ j, P j ((middle.setSlot (hashId id) ns).slot j) := by
        intro ns made done
        refine setSlot_all middle _ ns reserved ?_
        exact kept.accepted _ id _ u ns made (reserved _) (by rw [here]; rfl) (by rw [here]; rfl) done
      simp only at taken
      split at taken
      · contradiction
      · rename_i ns done
        simp only [Option.some.injEq, Prod.mk.injEq] at taken
        rw [← taken.1]
        exact keeps ns false done
      · rename_i ns done
        simp only [Option.some.injEq, Prod.mk.injEq] at taken
        rw [← taken.1]
        exact keeps ns true done

theorem path_all (kept : Kept P allowed) {start after : Server}
    (path : Transition.Path next (Allows allowed) start after)
    (initial : ∀ i, P i (start.slot i)) : ∀ i, P i (after.slot i) :=
  path.invariant (fun sv => ∀ i, P i (sv.slot i))
    (fun sv a after all allow taken => next_all kept sv after a all allow taken) initial

end Slots

end Server

end Pskynet.Socket
