import Mathlib.Logic.Function.Basic
import Mathlib.Tactic
import Pskynet.Server.Handle
import Pskynet.Shared.Words

set_option autoImplicit false

namespace Pskynet.TimerWheel

open Server Words

scoped instance levelsNeZero : NeZero 4 := ⟨by decide⟩
scoped instance timeLevelNeZero : NeZero 64 := ⟨by decide⟩
scoped instance timeNearNeZero : NeZero 256 := ⟨by decide⟩

def timeNearShift : UInt32 := 8
def timeNear : UInt32 := 1 <<< timeNearShift
def timeLevelShift : UInt32 := 6
def timeLevel : UInt32 := 1 <<< timeLevelShift
def timeNearMask : UInt32 := timeNear - 1
def timeLevelMask : UInt32 := timeLevel - 1

structure TimerEvent where
  handle : UInt32
  session : Int
  deriving DecidableEq, Repr

variable {α : Type}

-- `arg` stands for the `sz` bytes that `timer_add` copies behind the node.
structure TimerNode (α : Type) where
  expire : UInt32
  arg : α
  deriving DecidableEq, Repr

structure Timer (α : Type) where
  near : Fin 256 → List (TimerNode α)
  t : Fin 4 → Fin 64 → List (TimerNode α)
  time : UInt32

inductive Slot where
  | near (idx : Fin 256)
  | level (level : Fin 4) (idx : Fin 64)
  deriving DecidableEq, Repr

def Timer.list (T : Timer α) : Slot → List (TimerNode α)
  | .near idx => T.near idx
  | .level level idx => T.t level idx

def Timer.setList (T : Timer α) : Slot → List (TimerNode α) → Timer α
  | .near idx, nodes => { T with near := Function.update T.near idx nodes }
  | .level level idx, nodes =>
      { T with t := Function.update T.t level (Function.update (T.t level) idx nodes) }

def linkClear (T : Timer α) (slot : Slot) : List (TimerNode α) × Timer α :=
  (T.list slot, T.setList slot [])

def link (T : Timer α) (slot : Slot) (node : TimerNode α) : Timer α :=
  T.setList slot (T.list slot ++ [node])

-- The `for` loop of `add_node`: the levels still to be tried, and the mask of the first of them.
def levelOf (time current : UInt32) : List (Fin 4) → UInt32 → Fin 4
  | [], _ => 3
  | i :: rest, mask =>
      if (time ||| (mask - 1)) = (current ||| (mask - 1)) then i
      else levelOf time current rest (mask <<< timeLevelShift)

def slotFor (time current : UInt32) : Slot :=
  if (time ||| timeNearMask) = (current ||| timeNearMask) then
    .near (Fin.ofNat 256 (time &&& timeNearMask).toNat)
  else
    let i := levelOf time current [0, 1, 2] (timeNear <<< timeLevelShift)
    let shift := timeNearShift + UInt32.ofNat i.val * timeLevelShift
    .level i (Fin.ofNat 64 ((time >>> shift) &&& timeLevelMask).toNat)

def addNode (T : Timer α) (node : TimerNode α) : Timer α :=
  link T (slotFor node.expire T.time) node

-- `time` is a C `int`; the sum with `T->time` is taken modulo 2^32.
def timerAdd (T : Timer α) (arg : α) (time : Int) : Timer α :=
  addNode T { expire := UInt32.ofInt time + T.time, arg := arg }

def moveList (T : Timer α) (level : Fin 4) (idx : Fin 64) : Timer α :=
  let (current, cleared) := linkClear T (.level level idx)
  current.foldl addNode cleared

-- The `while` loop of `timer_shift`; with `ct ≠ 0` it stops before the levels run out.
def shiftLoop (T : Timer α) (ct : UInt32) : List (Fin 4) → UInt32 → UInt32 → Timer α
  | [], _, _ => T
  | i :: rest, mask, time =>
      if ct &&& (mask - 1) = 0 then
        let idx := time &&& timeLevelMask
        if idx ≠ 0 then moveList T i (Fin.ofNat 64 idx.toNat)
        else shiftLoop T ct rest (mask <<< timeLevelShift) (time >>> timeLevelShift)
      else T

def timerShift (T : Timer α) : Timer α :=
  let ct := T.time + 1
  let T := { T with time := ct }
  if ct = 0 then moveList T 3 0
  else shiftLoop T ct [0, 1, 2, 3] timeNear (ct >>> timeNearShift)

def response (event : TimerEvent) : UInt32 × SnMessage :=
  (event.handle,
    { source := 0
      session := event.session
      data := none
      sz := ptypeResponse <<< handleRemoteShift })

def dispatchList (current : List (TimerNode TimerEvent)) : List (UInt32 × SnMessage) :=
  current.map fun node => response node.arg

def timerCreateTimer : Timer α where
  near := fun _ => []
  t := fun _ _ => []
  time := 0

-- Where `add_node` puts an expiry `e` when the counter is `c`, without the masks.
def placement (e c : Nat) : Slot :=
  if e / 2 ^ 8 = c / 2 ^ 8 then .near (Fin.ofNat 256 e)
  else if e / 2 ^ 14 = c / 2 ^ 14 then .level 0 (Fin.ofNat 64 (e / 2 ^ 8))
  else if e / 2 ^ 20 = c / 2 ^ 20 then .level 1 (Fin.ofNat 64 (e / 2 ^ 14))
  else if e / 2 ^ 26 = c / 2 ^ 26 then .level 2 (Fin.ofNat 64 (e / 2 ^ 20))
  else .level 3 (Fin.ofNat 64 (e / 2 ^ 26))

-- The one list `timer_shift` moves when the counter becomes `c`.
def cascaded (c : Nat) : Option Slot :=
  if c % 2 ^ 8 ≠ 0 then none
  else if c / 2 ^ 8 % 64 ≠ 0 then some (.level 0 (Fin.ofNat 64 (c / 2 ^ 8)))
  else if c / 2 ^ 14 % 64 ≠ 0 then some (.level 1 (Fin.ofNat 64 (c / 2 ^ 14)))
  else if c / 2 ^ 20 % 64 ≠ 0 then some (.level 2 (Fin.ofNat 64 (c / 2 ^ 20)))
  else some (.level 3 (Fin.ofNat 64 (c / 2 ^ 26)))

theorem ofNat_eq_iff (a b : Nat) : Fin.ofNat 64 a = Fin.ofNat 64 b ↔ a % 64 = b % 64 := by
  simp [Fin.ext_iff, Fin.ofNat]

theorem ofNat_mod (a : Nat) : Fin.ofNat 64 (a % 64) = Fin.ofNat 64 a := by
  rw [ofNat_eq_iff, Nat.mod_mod]

theorem levelIndex (e shift : UInt32) (small : shift.toNat < 32) :
    Fin.ofNat 64 ((e >>> shift) &&& timeLevelMask).toNat =
      Fin.ofNat 64 (e.toNat / 2 ^ shift.toNat) := by
  rw [toNat_and_mask 6 _ timeLevelMask (by decide), toNat_shiftRight_lt _ _ small]
  exact ofNat_mod _

theorem slotFor_eq_placement (e c : UInt32) :
    slotFor e c = placement e.toNat c.toNat := by
  have near := or_mask_eq_iff_uint32 8 e c timeNearMask (by decide)
  have zero := or_mask_eq_iff_uint32 14 e c ((timeNear <<< timeLevelShift) - 1) (by decide)
  have one := or_mask_eq_iff_uint32 20 e c
    ((timeNear <<< timeLevelShift) <<< timeLevelShift - 1) (by decide)
  have two := or_mask_eq_iff_uint32 26 e c
    (((timeNear <<< timeLevelShift) <<< timeLevelShift) <<< timeLevelShift - 1) (by decide)
  have index : Fin.ofNat 256 (e &&& timeNearMask).toNat = Fin.ofNat 256 e.toNat := by
    rw [toNat_and_mask 8 _ timeNearMask (by decide)]
    simp [Fin.ofNat]
  simp only [slotFor, levelOf, placement, near, zero, one, two, index]
  split_ifs <;> simp only [Slot.level.injEq, true_and] <;> exact levelIndex _ _ (by decide)

theorem placement_congr (e c c' : Nat) (same : c' / 2 ^ 8 = c / 2 ^ 8) :
    placement e c' = placement e c := by
  have second : c' / 2 ^ 14 = c / 2 ^ 14 := by omega
  have third : c' / 2 ^ 20 = c / 2 ^ 20 := by omega
  have fourth : c' / 2 ^ 26 = c / 2 ^ 26 := by omega
  simp only [placement, same, second, third, fourth]

-- The 32-bit expiry `e` is still to come when the counter is `c`: either it is
-- larger, or the counter has to wrap before it is reached.
def Ahead (e c : Nat) : Prop :=
  e < 2 ^ 32 ∧ c < 2 ^ 32 ∧ (c < e ∧ e < c + 2 ^ 31 ∨ e + 2 ^ 31 < c)

theorem ahead_of_window (n d : Nat) (late : n < d) (window : d < n + 2 ^ 31) :
    Ahead (d % 2 ^ 32) (n % 2 ^ 32) := by
  refine ⟨Nat.mod_lt _ (by decide), Nat.mod_lt _ (by decide), ?_⟩
  omega

theorem placement_step (e c : Nat) (ahead : Ahead e c)
    (kept : cascaded ((c + 1) % 2 ^ 32) ≠ some (placement e c)) :
    placement e ((c + 1) % 2 ^ 32) = placement e c := by
  obtain ⟨eBound, cBound, order⟩ := ahead
  generalize next : (c + 1) % 2 ^ 32 = c' at *
  by_cases low : c' % 2 ^ 8 = 0
  · have near : e / 2 ^ 8 ≠ c / 2 ^ 8 := by omega
    by_cases zero : c' / 2 ^ 8 % 64 = 0
    · have notZero : e / 2 ^ 14 ≠ c / 2 ^ 14 := by omega
      by_cases one : c' / 2 ^ 14 % 64 = 0
      · have notOne : e / 2 ^ 20 ≠ c / 2 ^ 20 := by omega
        by_cases two : c' / 2 ^ 20 % 64 = 0
        · have notTwo : e / 2 ^ 26 ≠ c / 2 ^ 26 := by omega
          simp only [placement, cascaded, low, zero, one, two, near, notZero, notOne, notTwo,
            ne_eq, not_true, if_false, Option.some.injEq, Slot.level.injEq, true_and,
            ofNat_eq_iff] at kept ⊢
          have far : e / 2 ^ 26 ≠ c' / 2 ^ 26 := by omega
          have twoFar : e / 2 ^ 20 ≠ c' / 2 ^ 20 := by omega
          have oneFar : e / 2 ^ 14 ≠ c' / 2 ^ 14 := by omega
          have zeroFar : e / 2 ^ 8 ≠ c' / 2 ^ 8 := by omega
          simp only [far, twoFar, oneFar, zeroFar, if_false]
        · have same : c' / 2 ^ 26 = c / 2 ^ 26 := by omega
          simp only [placement, cascaded, low, zero, one, two, near, notZero, notOne, same,
            ne_eq, not_true, not_false_eq_true, if_true, if_false] at kept ⊢
          have far : e / 2 ^ 20 ≠ c' / 2 ^ 20 := by
            intro equal
            have block : e / 2 ^ 26 = c / 2 ^ 26 := by omega
            exact kept (by simp only [block, equal, if_true])
          have oneFar : e / 2 ^ 14 ≠ c' / 2 ^ 14 := by omega
          have zeroFar : e / 2 ^ 8 ≠ c' / 2 ^ 8 := by omega
          simp only [far, oneFar, zeroFar, if_false]
      · have same : c' / 2 ^ 20 = c / 2 ^ 20 := by omega
        have coarse : c' / 2 ^ 26 = c / 2 ^ 26 := by omega
        simp only [placement, cascaded, low, zero, one, near, notZero, same, coarse,
          ne_eq, not_true, not_false_eq_true, if_true, if_false] at kept ⊢
        have far : e / 2 ^ 14 ≠ c' / 2 ^ 14 := by
          intro equal
          have block : e / 2 ^ 20 = c / 2 ^ 20 := by omega
          exact kept (by simp only [block, equal, if_true])
        have zeroFar : e / 2 ^ 8 ≠ c' / 2 ^ 8 := by omega
        simp only [far, zeroFar, if_false]
    · have same : c' / 2 ^ 14 = c / 2 ^ 14 := by omega
      have coarse : c' / 2 ^ 20 = c / 2 ^ 20 := by omega
      have coarsest : c' / 2 ^ 26 = c / 2 ^ 26 := by omega
      simp only [placement, cascaded, low, zero, near, same, coarse, coarsest,
        ne_eq, not_true, not_false_eq_true, if_true, if_false] at kept ⊢
      have far : e / 2 ^ 8 ≠ c' / 2 ^ 8 := by
        intro equal
        have block : e / 2 ^ 14 = c / 2 ^ 14 := by omega
        exact kept (by simp only [block, equal, if_true])
      simp only [far, if_false]
  · exact placement_congr e c c' (by omega)

theorem placement_now (e c : Nat) (here : placement e c = .near (Fin.ofNat 256 c)) : e = c := by
  simp only [placement] at here
  split_ifs at here with block
  simp only [Slot.near.injEq, Fin.ext_iff, Fin.ofNat] at here
  omega

-- When the list at `slot` is looked at while the number of ticks is `k`.
def Served (slot : Slot) (k : Nat) : Prop :=
  match slot with
  | .near idx => Fin.ofNat 256 k = idx
  | .level .. => cascaded (k % 2 ^ 32) = some slot

theorem placement_served (n d : Nat) (late : n < d) (window : d < n + 2 ^ 31) :
    ∃ k, n < k ∧ k ≤ d ∧ Served (placement (d % 2 ^ 32) (n % 2 ^ 32)) k := by
  simp only [placement]
  split_ifs with near zero one two
  · exact ⟨d, late, le_refl d, by simp [Served, Fin.ofNat]⟩
  · refine ⟨d / 2 ^ 8 * 2 ^ 8, by omega, by omega, ?_⟩
    have start : d / 2 ^ 8 * 2 ^ 8 % 2 ^ 32 % 2 ^ 8 = 0 := by omega
    have index : d / 2 ^ 8 * 2 ^ 8 % 2 ^ 32 / 2 ^ 8 = d % 2 ^ 32 / 2 ^ 8 := by omega
    have inside : d % 2 ^ 32 / 2 ^ 8 % 64 ≠ 0 := by omega
    simp only [Served, cascaded, start, index, inside, ne_eq, not_true, not_false_eq_true,
      if_true, if_false]
  · refine ⟨d / 2 ^ 14 * 2 ^ 14, by omega, by omega, ?_⟩
    have start : d / 2 ^ 14 * 2 ^ 14 % 2 ^ 32 % 2 ^ 8 = 0 := by omega
    have below : d / 2 ^ 14 * 2 ^ 14 % 2 ^ 32 / 2 ^ 8 % 64 = 0 := by omega
    have index : d / 2 ^ 14 * 2 ^ 14 % 2 ^ 32 / 2 ^ 14 = d % 2 ^ 32 / 2 ^ 14 := by omega
    have inside : d % 2 ^ 32 / 2 ^ 14 % 64 ≠ 0 := by omega
    simp only [Served, cascaded, start, below, index, inside, ne_eq, not_true, not_false_eq_true,
      if_true, if_false]
  · refine ⟨d / 2 ^ 20 * 2 ^ 20, by omega, by omega, ?_⟩
    have start : d / 2 ^ 20 * 2 ^ 20 % 2 ^ 32 % 2 ^ 8 = 0 := by omega
    have below : d / 2 ^ 20 * 2 ^ 20 % 2 ^ 32 / 2 ^ 8 % 64 = 0 := by omega
    have next : d / 2 ^ 20 * 2 ^ 20 % 2 ^ 32 / 2 ^ 14 % 64 = 0 := by omega
    have index : d / 2 ^ 20 * 2 ^ 20 % 2 ^ 32 / 2 ^ 20 = d % 2 ^ 32 / 2 ^ 20 := by omega
    have inside : d % 2 ^ 32 / 2 ^ 20 % 64 ≠ 0 := by omega
    simp only [Served, cascaded, start, below, next, index, inside, ne_eq, not_true,
      not_false_eq_true, if_true, if_false]
  · refine ⟨d / 2 ^ 26 * 2 ^ 26, by omega, by omega, ?_⟩
    have start : d / 2 ^ 26 * 2 ^ 26 % 2 ^ 32 % 2 ^ 8 = 0 := by omega
    have below : d / 2 ^ 26 * 2 ^ 26 % 2 ^ 32 / 2 ^ 8 % 64 = 0 := by omega
    have next : d / 2 ^ 26 * 2 ^ 26 % 2 ^ 32 / 2 ^ 14 % 64 = 0 := by omega
    have last : d / 2 ^ 26 * 2 ^ 26 % 2 ^ 32 / 2 ^ 20 % 64 = 0 := by omega
    have index : d / 2 ^ 26 * 2 ^ 26 % 2 ^ 32 / 2 ^ 26 = d % 2 ^ 32 / 2 ^ 26 := by omega
    simp only [Served, cascaded, start, below, next, last, index, ne_eq, not_true, if_false]

theorem low_bits_zero_iff (k : Nat) (ct mask : UInt32) (same : mask.toNat = 2 ^ k - 1) :
    ct &&& mask = 0 ↔ ct.toNat % 2 ^ k = 0 := by
  rw [← UInt32.toNat_inj, toNat_and_mask k ct mask same]
  rfl

theorem digit_zero_iff (ct : UInt32) (n : Nat) (same : ct.toNat = n) :
    ct &&& timeLevelMask = 0 ↔ n % 64 = 0 := by
  rw [low_bits_zero_iff 6 ct timeLevelMask (by decide), same]
  rfl

theorem digit_index (ct : UInt32) (n : Nat) (same : ct.toNat = n) :
    Fin.ofNat 64 (ct &&& timeLevelMask).toNat = Fin.ofNat 64 n := by
  rw [toNat_and_mask 6 ct timeLevelMask (by decide), same]
  exact ofNat_mod n

def refill (T : Timer α) (slot : Slot) : Timer α :=
  (T.list slot).foldl addNode (T.setList slot [])

theorem timerShift_eq (T : Timer α) :
    timerShift T =
      match cascaded (T.time + 1).toNat with
      | some slot => refill { T with time := T.time + 1 } slot
      | none => { T with time := T.time + 1 } := by
  have move (T : Timer α) (level : Fin 4) (idx : Fin 64) :
      moveList T level idx = refill T (.level level idx) := rfl
  unfold timerShift
  generalize T.time + 1 = ct
  have bound := ct.toNat_lt
  have first : (ct >>> timeNearShift).toNat = ct.toNat / 2 ^ 8 :=
    toNat_shiftRight_lt _ _ (by decide)
  have second : (ct >>> timeNearShift >>> timeLevelShift).toNat = ct.toNat / 2 ^ 14 := by
    rw [toNat_shiftRight_lt _ _ (by decide), first, Nat.div_div_eq_div_mul]
    rfl
  have third :
      (ct >>> timeNearShift >>> timeLevelShift >>> timeLevelShift).toNat = ct.toNat / 2 ^ 20 := by
    rw [toNat_shiftRight_lt _ _ (by decide), second, Nat.div_div_eq_div_mul]
    rfl
  have fourth :
      (ct >>> timeNearShift >>> timeLevelShift >>> timeLevelShift >>> timeLevelShift).toNat =
        ct.toNat / 2 ^ 26 := by
    rw [toNat_shiftRight_lt _ _ (by decide), third, Nat.div_div_eq_div_mul]
    rfl
  have zero : ct = 0 ↔ ct.toNat = 0 := by rw [← UInt32.toNat_inj]; rfl
  simp only [shiftLoop, move, zero, low_bits_zero_iff 8 ct (timeNear - 1) (by decide),
    low_bits_zero_iff 14 ct (timeNear <<< timeLevelShift - 1) (by decide),
    low_bits_zero_iff 20 ct (timeNear <<< timeLevelShift <<< timeLevelShift - 1) (by decide),
    low_bits_zero_iff 26 ct
      (timeNear <<< timeLevelShift <<< timeLevelShift <<< timeLevelShift - 1) (by decide),
    ne_eq, digit_zero_iff _ _ first, digit_zero_iff _ _ second, digit_zero_iff _ _ third,
    digit_zero_iff _ _ fourth, digit_index _ _ first, digit_index _ _ second,
    digit_index _ _ third, digit_index _ _ fourth]
  unfold cascaded
  by_cases low : ct.toNat % 2 ^ 8 = 0
  · by_cases one : ct.toNat / 2 ^ 8 % 64 = 0
    · have aligned : ct.toNat % 2 ^ 14 = 0 := by omega
      by_cases two : ct.toNat / 2 ^ 14 % 64 = 0
      · have twice : ct.toNat % 2 ^ 20 = 0 := by omega
        by_cases three : ct.toNat / 2 ^ 20 % 64 = 0
        · have thrice : ct.toNat % 2 ^ 26 = 0 := by omega
          by_cases wrapped : ct.toNat = 0
          · simp [wrapped]
          · have four : ct.toNat / 2 ^ 26 % 64 ≠ 0 := by omega
            simp only [low, one, two, three, four, aligned, twice, thrice, wrapped, ne_eq,
              not_true, not_false_eq_true, if_true, if_false]
        · have positive : ct.toNat ≠ 0 := by omega
          simp only [low, one, two, three, aligned, twice, positive, ne_eq, not_true, not_false_eq_true,
            if_true, if_false]
      · have positive : ct.toNat ≠ 0 := by omega
        simp only [low, one, two, aligned, positive, ne_eq, not_true, not_false_eq_true, if_true, if_false]
    · have positive : ct.toNat ≠ 0 := by omega
      simp only [low, one, positive, ne_eq, not_true, not_false_eq_true, if_true, if_false]
  · have positive : ct.toNat ≠ 0 := by omega
    simp only [low, positive, ne_eq, not_false_eq_true, if_true, if_false]

end Pskynet.TimerWheel
