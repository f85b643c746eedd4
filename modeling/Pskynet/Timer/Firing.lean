import Pskynet.Timer.Wheel

set_option autoImplicit false

namespace Pskynet.TimerWheel

open Server

variable {α : Type}

@[simp] theorem list_setList (T : Timer α) (slot other : Slot) (nodes : List (TimerNode α)) :
    (T.setList slot nodes).list other = if other = slot then nodes else T.list other := by
  cases slot <;> cases other <;>
    simp only [Timer.setList, Timer.list, Function.update_apply, Slot.near.injEq, Slot.level.injEq,
      reduceCtorEq, if_false]
  split_ifs <;> simp_all

@[simp] theorem time_setList (T : Timer α) (slot : Slot) (nodes : List (TimerNode α)) :
    (T.setList slot nodes).time = T.time := by
  cases slot <;> rfl

@[simp] theorem list_setTime (T : Timer α) (time : UInt32) (slot : Slot) :
    Timer.list { T with time := time } slot = T.list slot := by
  cases slot <;> rfl

@[simp] theorem time_addNode (T : Timer α) (node : TimerNode α) :
    (addNode T node).time = T.time := by
  simp [addNode, link]

theorem time_foldl_addNode (nodes : List (TimerNode α)) (T : Timer α) :
    (nodes.foldl addNode T).time = T.time := by
  induction nodes generalizing T with
  | nil => rfl
  | cons node rest ih => simp [ih]

def Expiring (e : UInt32) (nodes : List (TimerNode α)) : List (TimerNode α) :=
  nodes.filter (fun node => node.expire = e)

-- Every list holds, for each expiry, exactly the pending nodes that `add_node`
-- would put there at the present counter, in the order in which they were added.
def Holds (T : Timer α) (pending : UInt32 → List (TimerNode α)) : Prop :=
  ∀ slot e, Expiring e (T.list slot) = if slot = slotFor e T.time then pending e else []

theorem addNode_holds (T : Timer α) (pending : UInt32 → List (TimerNode α)) (node : TimerNode α)
    (holds : Holds T pending) :
    Holds (addNode T node) (fun e => pending e ++ Expiring e [node]) := by
  intro slot e
  have before := holds slot e
  simp only [addNode, link, list_setList, time_setList]
  by_cases here : slot = slotFor node.expire T.time <;> by_cases same : node.expire = e
  · subst same
    simp_all [Expiring]
  · simp_all [Expiring]
  · subst same
    simp_all [Expiring]
  · simp_all [Expiring]

theorem foldl_addNode_holds (nodes : List (TimerNode α)) (T : Timer α)
    (pending : UInt32 → List (TimerNode α)) (holds : Holds T pending) :
    Holds (nodes.foldl addNode T) (fun e => pending e ++ Expiring e nodes) := by
  induction nodes generalizing T pending with
  | nil => simpa [Expiring] using holds
  | cons node rest ih =>
    have next := ih (addNode T node) _ (addNode_holds T pending node holds)
    have split (e : UInt32) : Expiring e (node :: rest) = Expiring e [node] ++ Expiring e rest :=
      List.filter_append [node] rest
    simpa only [split, List.foldl_cons, List.append_assoc] using next

theorem slotFor_step (e c : UInt32) (ahead : Ahead e.toNat c.toNat)
    (kept : cascaded (c + 1).toNat ≠ some (slotFor e c)) :
    slotFor e (c + 1) = slotFor e c := by
  have next : (c + 1).toNat = (c.toNat + 1) % 2 ^ 32 := UInt32.toNat_add c 1
  simp only [slotFor_eq_placement, next] at kept ⊢
  exact placement_step e.toNat c.toNat ahead kept

theorem refill_holds (T : Timer α) (slot : Slot) (time : UInt32)
    (pending : UInt32 → List (TimerNode α)) (holds : Holds T pending)
    (stays : ∀ e, pending e ≠ [] → slotFor e T.time ≠ slot → slotFor e time = slotFor e T.time) :
    Holds (refill { T with time := time } slot) pending := by
  let kept := fun e => if slotFor e T.time = slot then [] else pending e
  have start : Holds (Timer.setList { T with time := time } slot []) kept := by
    intro other e
    have before := holds other e
    simp only [kept, list_setList, time_setList, list_setTime]
    by_cases empty : pending e = []
    · by_cases same : other = slot <;> simp_all [Expiring]
    · by_cases there : slotFor e T.time = slot
      · by_cases same : other = slot <;> simp_all [Expiring]
      · rw [stays e empty there]
        by_cases same : other = slot
        · simp [Expiring, same, Ne.symm there]
        · simpa [same, there] using before
  have final := foldl_addNode_holds (T.list slot) _ kept start
  intro other e
  have contents := holds slot e
  have joined : kept e ++ Expiring e (T.list slot) = pending e := by
    rw [contents]
    by_cases there : slotFor e T.time = slot
    · simp [kept, there]
    · simp [kept, there, Ne.symm there]
  simpa [joined, refill] using final other e

theorem timerShift_holds (T : Timer α) (pending : UInt32 → List (TimerNode α))
    (holds : Holds T pending) (ahead : ∀ e, pending e ≠ [] → Ahead e.toNat T.time.toNat) :
    Holds (timerShift T) pending := by
  rw [timerShift_eq]
  cases moved : cascaded (T.time + 1).toNat with
  | none =>
    intro slot e
    have before := holds slot e
    by_cases empty : pending e = []
    · simpa [empty] using before
    · have same := slotFor_step e T.time (ahead e empty) (by rw [moved]; simp)
      simpa [same] using before
  | some slot =>
    apply refill_holds T slot (T.time + 1) pending holds
    intro e present elsewhere
    exact slotFor_step e T.time (ahead e present) (by rw [moved]; simpa using Ne.symm elsewhere)

theorem time_timerShift (T : Timer α) : (timerShift T).time = T.time + 1 := by
  rw [timerShift_eq]
  split
  · simp [refill, time_foldl_addNode]
  · rfl

theorem clear_holds (T : Timer α) (idx : Fin 256) (pending later : UInt32 → List (TimerNode α))
    (holds : Holds T pending)
    (rest : ∀ e, later e = if slotFor e T.time = .near idx then [] else pending e) :
    Holds (T.setList (.near idx) []) later := by
  intro slot e
  have before := holds slot e
  rw [rest e, list_setList, time_setList]
  by_cases same : slot = .near idx
  · subst same
    by_cases there : slotFor e T.time = .near idx
    · simp [Expiring, there]
    · simp [Expiring, Ne.symm there]
  · by_cases there : slotFor e T.time = .near idx
    · simpa [same, there] using before
    · simpa [same, there] using before

end Pskynet.TimerWheel
