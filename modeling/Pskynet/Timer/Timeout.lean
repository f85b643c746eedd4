import Pskynet.Timer.Run

set_option autoImplicit false

namespace Pskynet.TimerWheel

open Server

variable {α : Type}

def timerExecute (T : Timer α) : List (TimerNode α) × Timer α :=
  linkClear T (.near (Fin.ofNat 256 (T.time &&& timeNearMask).toNat))

def timerUpdate (T : Timer α) : List (TimerNode α) × Timer α :=
  let (first, T) := timerExecute T
  let T := timerShift T
  let (second, T) := timerExecute T
  (first ++ second, T)

-- The wheel with its calls: a node carries the number of its call of `skynet_timeout`, and so
-- does the message that is pushed for it.
structure Service where
  timer : Timer (Nat × TimerEvent)
  calls : Nat
  pushed : List (Nat × UInt32 × SnMessage)

namespace Service

inductive Call where
  | timeout (handle : UInt32) (time : Int32) (session : Int)
  | update

def init : Service where
  timer := timerCreateTimer
  calls := 0
  pushed := []

def skynetTimeout (s : Service) (handle : UInt32) (time : Int32) (session : Int) : Service :=
  let event : TimerEvent := { handle := handle, session := session }
  if time = 0 then
    { s with calls := s.calls + 1, pushed := s.pushed ++ [(s.calls, response event)] }
  else
    { s with calls := s.calls + 1, timer := timerAdd s.timer (s.calls, event) time.toInt }

def update (s : Service) : Service :=
  let (nodes, timer) := timerUpdate s.timer
  { s with
    timer := timer
    pushed := s.pushed ++ nodes.map fun node => (node.arg.1, response node.arg.2) }

def step (s : Service) : Call → Service
  | .timeout handle time session => s.skynetTimeout handle time session
  | .update => s.update

def run (s : Service) (calls : List Call) : Service := calls.foldl step s

def Delivered (s : Service) (number : Nat) (event : TimerEvent) : Prop :=
  (number, response event) ∈ s.pushed

end Service

section Placed

-- The only node with this number stands at `slot`.
structure Placed (T : Timer (Nat × α)) (number : Nat) (node : TimerNode (Nat × α)) (slot : Slot) :
    Prop where
  there : node ∈ T.list slot
  only : ∀ other, ∀ n ∈ T.list other, n.arg.1 = number → other = slot ∧ n = node

theorem mem_addNode (T : Timer α) (node other : TimerNode α) (slot : Slot) :
    other ∈ (addNode T node).list slot ↔
      other ∈ T.list slot ∨ other = node ∧ slot = slotFor node.expire T.time := by
  rw [addNode, link, list_setList]
  split_ifs with here
  · subst here
    simp
  · simp [here]

theorem mem_foldl_addNode (nodes : List (TimerNode α)) (T : Timer α) (other : TimerNode α)
    (slot : Slot) :
    other ∈ (nodes.foldl addNode T).list slot ↔
      other ∈ T.list slot ∨ other ∈ nodes ∧ slot = slotFor other.expire T.time := by
  induction nodes generalizing T with
  | nil => simp
  | cons node rest ih =>
    rw [List.foldl_cons, ih, mem_addNode, time_addNode, List.mem_cons]
    constructor
    · rintro ((old | ⟨same, here⟩) | ⟨later, here⟩)
      · exact .inl old
      · subst same
        exact .inr ⟨.inl rfl, here⟩
      · exact .inr ⟨.inr later, here⟩
    · rintro (old | ⟨same | later, here⟩)
      · exact .inl (.inl old)
      · subst same
        exact .inl (.inr ⟨rfl, here⟩)
      · exact .inr ⟨later, here⟩

variable {T : Timer (Nat × α)} {number : Nat} {node : TimerNode (Nat × α)} {slot : Slot}

theorem Placed.of_fresh (fresh : ∀ other, ∀ n ∈ T.list other, n.arg.1 ≠ number)
    (same : node.arg.1 = number) : Placed (addNode T node) number node (slotFor node.expire T.time) where
  there := (mem_addNode _ _ _ _).mpr (.inr ⟨rfl, rfl⟩)
  only := by
    intro other n member here
    rcases (mem_addNode _ _ _ _).mp member with old | ⟨rfl, place⟩
    · exact absurd here (fresh other n old)
    · exact ⟨place, rfl⟩

theorem Placed.add (placed : Placed T number node slot) (other : TimerNode (Nat × α))
    (apart : other.arg.1 ≠ number) : Placed (addNode T other) number node slot where
  there := (mem_addNode _ _ _ _).mpr (.inl placed.there)
  only := by
    intro place n member here
    rcases (mem_addNode _ _ _ _).mp member with old | ⟨rfl, _⟩
    · exact placed.only place n old here
    · exact absurd here apart

theorem Placed.clear (placed : Placed T number node slot) (taken : Slot) (elsewhere : slot ≠ taken) :
    Placed (T.setList taken []) number node slot where
  there := by
    rw [list_setList, if_neg elsewhere]
    exact placed.there
  only := by
    intro other n member here
    rw [list_setList] at member
    split_ifs at member
    · cases member
    · exact placed.only other n member here

theorem Placed.shift (placed : Placed T number node slot) :
    Placed (timerShift T) number node
      (if cascaded (T.time + 1).toNat = some slot then slotFor node.expire (T.time + 1)
        else slot) := by
  rw [timerShift_eq]
  cases moved : cascaded (T.time + 1).toNat with
  | none =>
    rw [if_neg (by simp)]
    refine ⟨?_, ?_⟩
    · rw [list_setTime]
      exact placed.there
    · intro other n member here
      rw [list_setTime] at member
      exact placed.only other n member here
  | some level =>
    have mem (other : Slot) (n : TimerNode (Nat × α)) :
        n ∈ (refill { T with time := T.time + 1 } level).list other ↔
          other ≠ level ∧ n ∈ T.list other ∨
            n ∈ T.list level ∧ other = slotFor n.expire (T.time + 1) := by
      rw [refill, mem_foldl_addNode, list_setList, time_setList, list_setTime]
      by_cases same : other = level
      · simp [same]
      · simp [same]
    dsimp only
    by_cases here : level = slot
    · subst here
      rw [if_pos rfl]
      refine ⟨(mem _ _).mpr (.inr ⟨placed.there, rfl⟩), ?_⟩
      intro other n member same
      rcases (mem _ _).mp member with ⟨apart, old⟩ | ⟨old, place⟩
      · exact absurd (placed.only other n old same).1 apart
      · have equal := (placed.only level n old same).2
        rw [equal] at place
        exact ⟨place, equal⟩
    · rw [if_neg (by simpa using here)]
      refine ⟨(mem _ _).mpr (.inl ⟨Ne.symm here, placed.there⟩), ?_⟩
      intro other n member same
      rcases (mem _ _).mp member with ⟨_, old⟩ | ⟨old, _⟩
      · exact placed.only other n old same
      · exact absurd (placed.only level n old same).1 here

theorem nearList (T : Timer α) :
    Fin.ofNat 256 (T.time &&& timeNearMask).toNat = Fin.ofNat 256 T.time.toNat := by
  rw [Words.toNat_and_mask 8 _ timeNearMask (by decide)]
  simp [Fin.ofNat]

theorem timerExecute_placed (placed : Placed T number node slot) :
    (slot = .near (Fin.ofNat 256 T.time.toNat) → node ∈ (timerExecute T).1) ∧
      (slot ≠ .near (Fin.ofNat 256 T.time.toNat) →
        (∀ n ∈ (timerExecute T).1, n.arg.1 ≠ number) ∧
          Placed (timerExecute T).2 number node slot) ∧
      (timerExecute T).2.time = T.time := by
  rw [timerExecute, nearList, linkClear]
  refine ⟨?_, ?_, time_setList _ _ _⟩
  · intro here
    rw [← here]
    exact placed.there
  · intro elsewhere
    refine ⟨?_, placed.clear _ elsewhere⟩
    intro n member same
    exact elsewhere (placed.only _ n member same).1.symm

def shiftedSlot (time expire : UInt32) (slot : Slot) : Slot :=
  if cascaded (time + 1).toNat = some slot then slotFor expire (time + 1) else slot

theorem timerUpdate_placed (placed : Placed T number node slot) :
    (slot = .near (Fin.ofNat 256 T.time.toNat) ∨
        shiftedSlot T.time node.expire slot = .near (Fin.ofNat 256 (T.time + 1).toNat) →
      node ∈ (timerUpdate T).1) ∧
    (¬(slot = .near (Fin.ofNat 256 T.time.toNat) ∨
        shiftedSlot T.time node.expire slot = .near (Fin.ofNat 256 (T.time + 1).toNat)) →
      ∀ n ∈ (timerUpdate T).1, n.arg.1 ≠ number) := by
  obtain ⟨taken, kept, time⟩ := timerExecute_placed placed
  simp only [timerUpdate, List.mem_append]
  by_cases here : slot = .near (Fin.ofNat 256 T.time.toNat)
  · exact ⟨fun _ => .inl (taken here), fun elsewhere => absurd (.inl here) elsewhere⟩
  · obtain ⟨none_, stays⟩ := kept here
    have later : (timerShift (timerExecute T).2).time = T.time + 1 := by
      rw [time_timerShift, time]
    obtain ⟨takenLater, keptLater, -⟩ := timerExecute_placed stays.shift
    rw [time, later] at takenLater keptLater
    rw [or_iff_right here]
    refine ⟨fun now => .inr (takenLater now), ?_⟩
    rintro elsewhere n (member | member)
    · exact none_ n member
    · exact (keptLater elsewhere).1 n member

end Placed

section Places

theorem slotFor_near (e c : UInt32) :
    slotFor e c = .near (Fin.ofNat 256 c.toNat) ↔ e = c := by
  rw [slotFor_eq_placement]
  constructor
  · intro here
    exact UInt32.toNat_inj.mp (placement_now _ _ here)
  · intro same
    simp [same, placement]

theorem cascaded_near (c : Nat) (idx : Fin 256) : cascaded c ≠ some (.near idx) := by
  unfold cascaded
  split_ifs <;> simp

theorem placement_next (e c : Nat) :
    placement e c = .near (Fin.ofNat 256 (c + 1)) ↔ e / 2 ^ 8 = c / 2 ^ 8 ∧ e % 256 = (c + 1) % 256 := by
  by_cases near : e / 2 ^ 8 = c / 2 ^ 8
  · rw [placement, if_pos near, and_iff_right near]
    simp [Fin.ofNat, Fin.ext_iff]
  · refine iff_of_false ?_ fun both => near both.1
    rw [placement, if_neg near]
    split_ifs <;> simp

theorem behind_iff (c : UInt32) (time : Int32) (negative : time.toInt < 0) :
    (slotFor (UInt32.ofInt time.toInt + c) c = .near (Fin.ofNat 256 c.toNat) ∨
        shiftedSlot c (UInt32.ofInt time.toInt + c) (slotFor (UInt32.ofInt time.toInt + c) c) =
          .near (Fin.ofNat 256 (c + 1).toNat)) ↔
      time = -255 ∧ c % 256 = 255 := by
  have low := time.le_toInt
  have bound := c.toNat_lt
  have expire : (UInt32.ofInt time.toInt + c).toNat = ((c.toNat + time.toInt) % 2 ^ 32).toNat := by
    rw [UInt32.toNat_add, UInt32.ofInt, UInt32.toNat_ofNat']
    omega
  have next : (c + 1).toNat = (c.toNat + 1) % 2 ^ 32 := UInt32.toNat_add c 1
  have index : Fin.ofNat 256 (c + 1).toNat = Fin.ofNat 256 (c.toNat + 1) := by
    rw [next]
    simp [Fin.ofNat]
  have now : UInt32.ofInt time.toInt + c ≠ c := by
    intro same
    have value := congrArg UInt32.toNat same
    rw [expire] at value
    omega
  have soon : UInt32.ofInt time.toInt + c ≠ c + 1 := by
    intro same
    have value := congrArg UInt32.toNat same
    rw [expire, next] at value
    omega
  have place : slotFor (UInt32.ofInt time.toInt + c) c = .near (Fin.ofNat 256 (c.toNat + 1)) ↔
      time = -255 ∧ c % 256 = 255 := by
    have word : c % 256 = 255 ↔ c.toNat % 256 = 255 := by
      rw [← UInt32.toNat_inj, UInt32.toNat_mod]
      rfl
    have moment : time = -255 ↔ time.toInt = -255 := by
      rw [← Int32.toInt_inj]
      rfl
    rw [slotFor_eq_placement, placement_next, expire, word, moment]
    omega
  rw [slotFor_near, or_iff_right now, index, ← place, shiftedSlot]
  split_ifs with moved
  · rw [← index, slotFor_near]
    refine iff_of_false soon ?_
    intro here
    rw [here] at moved
    exact cascaded_near _ _ moved
  · exact Iff.rfl

end Places

namespace Service

structure Known (s : Service) : Prop where
  timer : ∀ slot, ∀ node ∈ s.timer.list slot, node.arg.1 < s.calls
  pushed : ∀ push ∈ s.pushed, push.1 < s.calls

theorem init_known : Known init where
  timer := by
    intro slot node member
    cases slot <;> cases member
  pushed := by
    intro push member
    cases member

theorem skynetTimeout_known (s : Service) (handle : UInt32) (time : Int32) (session : Int)
    (known : Known s) : Known (s.skynetTimeout handle time session) := by
  unfold skynetTimeout
  split_ifs with zero
  · refine ⟨?_, ?_⟩
    · intro slot node member
      exact Nat.lt_succ_of_lt (known.timer slot node member)
    · intro push member
      rcases List.mem_append.mp member with old | new_
      · exact Nat.lt_succ_of_lt (known.pushed push old)
      · rw [List.mem_singleton.mp new_]
        exact Nat.lt_succ_self _
  · refine ⟨?_, ?_⟩
    · intro slot node member
      rcases (mem_addNode _ _ _ _).mp member with old | ⟨same, _⟩
      · exact Nat.lt_succ_of_lt (known.timer slot node old)
      · rw [same]
        exact Nat.lt_succ_self _
    · intro push member
      exact Nat.lt_succ_of_lt (known.pushed push member)

theorem mem_timerExecute {T : Timer α} {slot : Slot} {node : TimerNode α}
    (member : node ∈ (timerExecute T).2.list slot ∨ node ∈ (timerExecute T).1) :
    ∃ other, node ∈ T.list other := by
  rcases member with kept | taken
  · rw [timerExecute, linkClear, list_setList] at kept
    split_ifs at kept
    · cases kept
    · exact ⟨slot, kept⟩
  · exact ⟨.near _, taken⟩

theorem mem_timerShift {T : Timer α} {slot : Slot} {node : TimerNode α}
    (member : node ∈ (timerShift T).list slot) : ∃ other, node ∈ T.list other := by
  rw [timerShift_eq] at member
  cases moved : cascaded (T.time + 1).toNat with
  | none =>
    rw [moved] at member
    exact ⟨slot, by simpa using member⟩
  | some level =>
    rw [moved] at member
    dsimp only at member
    rw [refill, mem_foldl_addNode, list_setList, list_setTime, list_setTime] at member
    rcases member with kept | ⟨moved_, _⟩
    · split_ifs at kept
      · cases kept
      · exact ⟨slot, kept⟩
    · exact ⟨level, moved_⟩

theorem update_known (s : Service) (known : Known s) : Known s.update := by
  have first (slot : Slot) {node : TimerNode (Nat × TimerEvent)}
      (member : node ∈ (timerExecute s.timer).2.list slot ∨ node ∈ (timerExecute s.timer).1) :
      node.arg.1 < s.calls := by
    obtain ⟨other, inside⟩ := mem_timerExecute member
    exact known.timer other node inside
  have second (slot : Slot) {node : TimerNode (Nat × TimerEvent)}
      (member : node ∈ (timerExecute (timerShift (timerExecute s.timer).2)).2.list slot ∨
        node ∈ (timerExecute (timerShift (timerExecute s.timer).2)).1) :
      node.arg.1 < s.calls := by
    obtain ⟨other, inside⟩ := mem_timerExecute member
    obtain ⟨last, there⟩ := mem_timerShift inside
    exact first last (.inl there)
  refine ⟨?_, ?_⟩
  · intro slot node member
    exact second slot (.inl member)
  · intro push member
    rcases List.mem_append.mp member with old | new_
    · exact known.pushed push old
    · obtain ⟨node, inside, rfl⟩ := List.mem_map.mp new_
      rcases List.mem_append.mp inside with before | after
      · exact first (.near 0) (.inr before)
      · exact second (.near 0) (.inr after)

theorem run_known (s : Service) (calls : List Call) (known : Known s) : Known (run s calls) := by
  induction calls generalizing s with
  | nil => exact known
  | cons call rest ih =>
    cases call with
    | timeout handle time session => exact ih _ (skynetTimeout_known s handle time session known)
    | update => exact ih _ (update_known s known)

structure Other where
  handle : UInt32
  time : Int32
  session : Int

def others (s : Service) (more : List Other) : Service :=
  more.foldl (fun s other => s.skynetTimeout other.handle other.time other.session) s

-- The timeout `number` waits in the wheel.
structure Waits (s : Service) (number : Nat) (node : TimerNode (Nat × TimerEvent)) (slot : Slot) :
    Prop where
  placed : Placed s.timer number node slot
  called : number < s.calls
  unpushed : ∀ push ∈ s.pushed, push.1 ≠ number

theorem Waits.timeout {s : Service} {number : Nat} {node : TimerNode (Nat × TimerEvent)}
    {slot : Slot} (waits : Waits s number node slot) (handle : UInt32) (time : Int32)
    (session : Int) :
    Waits (s.skynetTimeout handle time session) number node slot ∧
      (s.skynetTimeout handle time session).timer.time = s.timer.time := by
  have called := waits.called
  unfold skynetTimeout
  split_ifs with zero
  · refine ⟨⟨waits.placed, Nat.lt_succ_of_lt called, ?_⟩, rfl⟩
    intro push member
    rcases List.mem_append.mp member with old | new_
    · exact waits.unpushed push old
    · rw [List.mem_singleton.mp new_]
      exact Ne.symm called.ne
  · refine ⟨⟨?_, Nat.lt_succ_of_lt called, waits.unpushed⟩, ?_⟩
    · exact waits.placed.add _ (Ne.symm called.ne)
    · exact time_addNode _ _

theorem Waits.others {s : Service} {number : Nat} {node : TimerNode (Nat × TimerEvent)}
    {slot : Slot} (waits : Waits s number node slot) (more : List Other) :
    Waits (s.others more) number node slot ∧ (s.others more).timer.time = s.timer.time := by
  induction more generalizing s with
  | nil => exact ⟨waits, rfl⟩
  | cons other rest ih =>
    obtain ⟨next, time⟩ := waits.timeout other.handle other.time other.session
    obtain ⟨last, same⟩ := ih next
    exact ⟨last, same.trans time⟩

theorem Waits.update_iff {s : Service} {number : Nat} {node : TimerNode (Nat × TimerEvent)}
    {slot : Slot} (waits : Waits s number node slot) (same : node.arg.1 = number) :
    Delivered s.update number node.arg.2 ↔
      slot = .near (Fin.ofNat 256 s.timer.time.toNat) ∨
        shiftedSlot s.timer.time node.expire slot =
          .near (Fin.ofNat 256 (s.timer.time + 1).toNat) := by
  obtain ⟨taken, kept⟩ := timerUpdate_placed waits.placed
  constructor
  · intro member
    by_contra elsewhere
    rcases List.mem_append.mp member with old | new_
    · exact waits.unpushed _ old rfl
    · obtain ⟨n, inside, pair⟩ := List.mem_map.mp new_
      exact kept elsewhere n inside (congrArg Prod.fst pair)
  · intro now
    refine List.mem_append.mpr (.inr (List.mem_map.mpr ⟨node, taken now, ?_⟩))
    rw [same]

theorem delivered_others {s : Service} {number : Nat} {event : TimerEvent}
    (delivered : Delivered s number event) (more : List Other) :
    Delivered (s.others more).update number event := by
  have kept : Delivered (s.others more) number event := by
    induction more generalizing s with
    | nil => exact delivered
    | cons other rest ih =>
      apply ih
      change (s.skynetTimeout other.handle other.time other.session).Delivered number event
      unfold skynetTimeout
      split_ifs
      · exact List.mem_append.mpr (.inl delivered)
      · exact delivered
  exact List.mem_append.mpr (.inl kept)

theorem timeout_delivered_iff (calls : List Call) (handle : UInt32) (time : Int32) (session : Int)
    (nonpositive : time ≤ 0) (more : List Other) :
    Delivered (((run init calls).skynetTimeout handle time session).others more).update
        (run init calls).calls { handle := handle, session := session } ↔
      time = 0 ∨ time = -255 ∧ (run init calls).timer.time % 256 = 255 := by
  have known := run_known init calls init_known
  generalize run init calls = s at known ⊢
  by_cases zero : time = 0
  · refine iff_of_true (delivered_others ?_ more) (.inl zero)
    rw [skynetTimeout, if_pos zero]
    exact List.mem_append.mpr (.inr (List.mem_singleton.mpr rfl))
  · have negative : time.toInt < 0 := by
      have below := Int32.le_iff_toInt_le.mp nonpositive
      have other : time.toInt ≠ 0 := fun same => zero (Int32.toInt_inj.mp same)
      have none_ : (0 : Int32).toInt = 0 := rfl
      omega
    have added : Waits (s.skynetTimeout handle time session) s.calls
        { expire := UInt32.ofInt time.toInt + s.timer.time
          arg := (s.calls, { handle := handle, session := session }) }
        (slotFor (UInt32.ofInt time.toInt + s.timer.time) s.timer.time) := by
      rw [skynetTimeout, if_neg zero]
      refine ⟨?_, Nat.lt_succ_self _, fun push member => (known.pushed push member).ne⟩
      exact Placed.of_fresh (fun other n member => (known.timer other n member).ne) rfl
    have before : (s.skynetTimeout handle time session).timer.time = s.timer.time := by
      rw [skynetTimeout, if_neg zero]
      exact time_addNode _ _
    obtain ⟨waits, still⟩ := added.others more
    have delivered := waits.update_iff rfl
    rw [still, before] at delivered
    rw [or_iff_right zero, ← behind_iff s.timer.time time negative]
    exact delivered

theorem timeout_delivered_iff_minute :
    Delivered (((run init [.timeout 16777217 6000 1, .update]).skynetTimeout 16777217 0 2).others
        [{ handle := 16777218, time := 5, session := 1 }]).update 1
        { handle := 16777217, session := 2 } ↔
      (0 : Int32) = 0 ∨ (0 : Int32) = -255 ∧
        (run init [.timeout 16777217 6000 1, .update]).timer.time % 256 = 255 :=
  timeout_delivered_iff [.timeout 16777217 6000 1, .update] 16777217 0 2 (by decide)
    [{ handle := 16777218, time := 5, session := 1 }]

theorem timeout_negative :
    ¬Delivered (init.skynetTimeout 16777217 (-1) 1).update 0
      { handle := 16777217, session := 1 } := by
  have none_ : (init.skynetTimeout 16777217 (-1) 1).update.pushed = [] := by decide +kernel
  rw [Delivered, none_]
  exact List.not_mem_nil

end Service

end Pskynet.TimerWheel
