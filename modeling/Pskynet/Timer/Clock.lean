import Mathlib.Tactic
import Pskynet.Lua.Number
import Pskynet.Shared.Rounding

set_option autoImplicit false

namespace Pskynet.TimerWheel

open Lua Rounding

structure Clock where
  current : UInt32
  starttime : UInt32
  currentPoint : UInt64
  originPoint : UInt64
  deriving DecidableEq, Repr

-- `systime` gives the seconds and centiseconds of the system's clock.
def skynetTimerInit (sec cs : UInt32) (point : UInt64) : Clock :=
  { current := cs, starttime := sec, currentPoint := point, originPoint := point }

-- `cp` is what `gettime` returns. With the clock, the number of calls of `timer_update`.
def skynetUpdatetime (cp : UInt64) (TI : Clock) : Clock × UInt32 :=
  if cp < TI.currentPoint then ({ TI with currentPoint := cp }, 0)
  else if cp ≠ TI.currentPoint then
    let diff := (cp - TI.currentPoint).toUInt32
    let oc := TI.current
    let current := TI.current + diff
    ({ TI with
        currentPoint := cp
        current := current
        starttime := if current < oc then TI.starttime + 0xffffffff / 100 else TI.starttime }, diff)
  else (TI, 0)

def skynetGettimeFixsec (TI : Clock) : UInt32 := TI.starttime

def skynetGettime (TI : Clock) : UInt32 := TI.current

def clockTime (TI : Clock) : ℚ := (skynetGettime TI).toNat / 100 + (skynetGettimeFixsec TI).toNat

section

variable (build : Build)

-- `tonumber` of the digits that the command `NOW` or `STARTTIME` writes
def skynetNow (TI : Clock) : ℤ := build.integer (skynetGettime TI).toNat

def skynetStarttime (TI : Clock) : ℤ := build.integer (skynetGettimeFixsec TI).toNat

-- `skynet.now()/100 + skynet.starttime()`: an integer becomes a float, and so does each result.
def skynetTime (TI : Clock) : ℚ :=
  let float := toPrecision build.precision
  float (float (float (skynetNow build TI) / 100) + float (skynetStarttime build TI))

end

def updatetimes (TI : Clock) (points : List UInt64) : Clock :=
  points.foldl (fun TI cp => (skynetUpdatetime cp TI).1) TI

-- `gettime` does not go back, and advances by less than 2^32 between two calls.
def Steady : UInt64 → List UInt64 → Prop
  | _, [] => True
  | point, cp :: rest =>
      point.toNat ≤ cp.toNat ∧ cp.toNat - point.toNat < 2 ^ 32 ∧ Steady cp rest

def elapsed : UInt64 → List UInt64 → Nat
  | _, [] => 0
  | point, cp :: rest => cp.toNat - point.toNat + elapsed cp rest

theorem skynetUpdatetime_steady (cp : UInt64) (TI : Clock)
    (forward : TI.currentPoint.toNat ≤ cp.toNat)
    (small : cp.toNat - TI.currentPoint.toNat < 2 ^ 32) :
    let next := (skynetUpdatetime cp TI).1
    let total := TI.current.toNat + (cp.toNat - TI.currentPoint.toNat)
    next.currentPoint = cp ∧ next.current.toNat = total % 2 ^ 32 ∧
      next.starttime.toNat = (TI.starttime.toNat + 42949672 * (total / 2 ^ 32)) % 2 ^ 32 := by
  have current := TI.current.toNat_lt
  have starttime := TI.starttime.toNat_lt
  have order : ¬cp < TI.currentPoint := by
    rw [UInt64.lt_iff_toNat_lt]
    omega
  rw [skynetUpdatetime, if_neg order]
  by_cases same : cp = TI.currentPoint
  · rw [if_neg (by simpa using same), same]
    refine ⟨rfl, ?_, ?_⟩
    · rw [Nat.sub_self, Nat.add_zero, Nat.mod_eq_of_lt current]
    · rw [Nat.sub_self, Nat.add_zero, Nat.div_eq_of_lt current, Nat.mul_zero, Nat.add_zero,
        Nat.mod_eq_of_lt starttime]
  · rw [if_pos same]
    have diff : (cp - TI.currentPoint).toUInt32.toNat = cp.toNat - TI.currentPoint.toNat := by
      rw [UInt64.toNat_toUInt32, UInt64.toNat_sub_of_le _ _ (UInt64.le_iff_toNat_le.mpr forward)]
      exact Nat.mod_eq_of_lt small
    have sum : (TI.current + (cp - TI.currentPoint).toUInt32).toNat =
        (TI.current.toNat + (cp.toNat - TI.currentPoint.toNat)) % 2 ^ 32 := by
      rw [UInt32.toNat_add, diff]
    refine ⟨rfl, sum, ?_⟩
    -- An advance of less than 2^32 makes the counter smaller exactly when it wraps.
    by_cases wraps : TI.current.toNat + (cp.toNat - TI.currentPoint.toNat) < 2 ^ 32
    · have quotient := Nat.div_eq_of_lt wraps
      have above : ¬TI.current + (cp - TI.currentPoint).toUInt32 < TI.current := by
        rw [UInt32.lt_iff_toNat_lt, sum]
        omega
      simp only [if_neg above, quotient]
      omega
    · have quotient : (TI.current.toNat + (cp.toNat - TI.currentPoint.toNat)) / 2 ^ 32 = 1 := by
        omega
      have below : TI.current + (cp - TI.currentPoint).toUInt32 < TI.current := by
        rw [UInt32.lt_iff_toNat_lt, sum]
        omega
      simp only [if_pos below, quotient]
      rw [UInt32.toNat_add]
      rfl

theorem updatetimes_counts (TI : Clock) (points : List UInt64)
    (steady : Steady TI.currentPoint points) :
    let total := TI.current.toNat + elapsed TI.currentPoint points
    (updatetimes TI points).current.toNat = total % 2 ^ 32 ∧
      (updatetimes TI points).starttime.toNat =
        (TI.starttime.toNat + 42949672 * (total / 2 ^ 32)) % 2 ^ 32 := by
  induction points generalizing TI with
  | nil =>
    have current := TI.current.toNat_lt
    have starttime := TI.starttime.toNat_lt
    simp only [updatetimes, List.foldl_nil, elapsed]
    omega
  | cons cp rest ih =>
    obtain ⟨forward, small, later⟩ := steady
    obtain ⟨point, current, starttime⟩ := skynetUpdatetime_steady cp TI forward small
    have run := ih (skynetUpdatetime cp TI).1 (by rw [point]; exact later)
    rw [point, current, starttime] at run
    simp only [updatetimes, List.foldl_cons, elapsed] at run ⊢
    obtain ⟨first, second⟩ := run
    rw [first, second]
    constructor <;> omega

theorem clockTime_eq (TI : Clock) :
    clockTime TI = (TI.current.toNat + 100 * TI.starttime.toNat : Nat) / (100 : ℚ) := by
  rw [clockTime, skynetGettime, skynetGettimeFixsec]
  push_cast
  ring

theorem wraps_lose (current starttime total : Nat) (small : starttime < 2 ^ 32) :
    (current + total) % 2 ^ 32 +
          100 * ((starttime + 42949672 * ((current + total) / 2 ^ 32)) % 2 ^ 32) =
        current + 100 * starttime + total ↔
      current + total < 2 ^ 32 := by
  have parts := Nat.div_add_mod (current + total) (2 ^ 32)
  have rest := Nat.mod_lt (current + total) (show 0 < 2 ^ 32 by norm_num)
  have seconds := Nat.mod_le (starttime + 42949672 * ((current + total) / 2 ^ 32)) (2 ^ 32)
  constructor
  · intro exact_
    generalize (starttime + 42949672 * ((current + total) / 2 ^ 32)) % 2 ^ 32 = shown at *
    generalize (current + total) / 2 ^ 32 = wraps at *
    generalize (current + total) % 2 ^ 32 = left at *
    have none_ : wraps = 0 := by linarith only [exact_, parts, seconds, Nat.zero_le wraps]
    subst none_
    linarith only [parts, rest]
  · intro bound
    rw [Nat.div_eq_of_lt bound, Nat.mod_eq_of_lt bound, Nat.mul_zero, Nat.add_zero,
      Nat.mod_eq_of_lt small]
    omega

theorem time_exact_iff_final (TI : Clock) (points : List UInt64)
    (steady : Steady TI.currentPoint points) :
    clockTime (updatetimes TI points) = clockTime TI + elapsed TI.currentPoint points / 100 ↔
      TI.current.toNat + elapsed TI.currentPoint points < 2 ^ 32 := by
  obtain ⟨current, starttime⟩ := updatetimes_counts TI points steady
  have small := TI.starttime.toNat_lt
  have ticks : clockTime TI + elapsed TI.currentPoint points / 100 =
      (TI.current.toNat + 100 * TI.starttime.toNat + elapsed TI.currentPoint points : Nat) /
        (100 : ℚ) := by
    rw [clockTime_eq, ← add_div, Nat.cast_add _ (elapsed _ _)]
  rw [ticks, clockTime_eq, div_left_inj' (by norm_num), Nat.cast_inj, current, starttime]
  exact wraps_lose _ _ _ small

theorem elapsed_append (point : UInt64) (front rest : List UInt64) :
    elapsed point front ≤ elapsed point (front ++ rest) := by
  induction front generalizing point with
  | nil => exact Nat.zero_le _
  | cons cp front ih =>
    rw [List.cons_append, elapsed, elapsed]
    exact Nat.add_le_add_left (ih cp) _

theorem steady_append (point : UInt64) (front rest : List UInt64)
    (steady : Steady point (front ++ rest)) : Steady point front := by
  induction front generalizing point with
  | nil => trivial
  | cons cp front ih => exact ⟨steady.1, steady.2.1, ih cp steady.2.2⟩

theorem time_exact_iff (TI : Clock) (points : List UInt64)
    (steady : Steady TI.currentPoint points) :
    (∀ front rest, points = front ++ rest →
        clockTime (updatetimes TI front) = clockTime TI + elapsed TI.currentPoint front / 100) ↔
      TI.current.toNat + elapsed TI.currentPoint points < 2 ^ 32 := by
  constructor
  · intro exact_
    exact (time_exact_iff_final TI points steady).mp
      (exact_ points [] (List.append_nil points).symm)
  · intro bound front rest split
    rw [split] at steady bound
    have before := elapsed_append TI.currentPoint front rest
    exact (time_exact_iff_final TI front (steady_append _ front rest steady)).mpr (by omega)

section

variable {build : Build}

def Shown (build : Build) (TI : Clock) : Prop :=
  TI.current.toNat < build.limit ∧ TI.starttime.toNat < build.limit

theorem skynetTime_shown {TI : Clock} (shown : Shown build TI) :
    skynetTime build TI = toPrecision build.precision
      (toPrecision build.precision (toPrecision build.precision TI.current.toNat / 100) +
        toPrecision build.precision TI.starttime.toNat) := by
  have now : skynetNow build TI = TI.current.toNat :=
    Build.integer_eq (by omega) (by exact_mod_cast shown.1)
  have start : skynetStarttime build TI = TI.starttime.toNat :=
    Build.integer_eq (by omega) (by exact_mod_cast shown.2)
  simp only [skynetTime, now, start, Int.cast_natCast]

theorem skynetTime_mono {TI later : Clock} (shown : Shown build TI) (shown' : Shown build later)
    (current : TI.current.toNat ≤ later.current.toNat)
    (starttime : TI.starttime.toNat ≤ later.starttime.toNat) :
    skynetTime build TI ≤ skynetTime build later := by
  have bits := build.precision_pos
  have now : toPrecision build.precision (TI.current.toNat : ℚ) ≤
      toPrecision build.precision (later.current.toNat : ℚ) :=
    toPrecision_mono bits (Nat.cast_nonneg _) (Nat.cast_le.mpr current)
  have zero : 0 ≤ toPrecision build.precision (TI.current.toNat : ℚ) :=
    toPrecision_nonneg (Nat.cast_nonneg _)
  have seconds := toPrecision_mono bits (div_nonneg zero (by norm_num))
    (div_le_div_of_nonneg_right now (show (0 : ℚ) ≤ 100 by norm_num))
  have start : toPrecision build.precision (TI.starttime.toNat : ℚ) ≤
      toPrecision build.precision (later.starttime.toNat : ℚ) :=
    toPrecision_mono bits (Nat.cast_nonneg _) (Nat.cast_le.mpr starttime)
  rw [skynetTime_shown shown, skynetTime_shown shown']
  refine toPrecision_mono bits (add_nonneg (toPrecision_nonneg (div_nonneg zero (by norm_num)))
    (toPrecision_nonneg (Nat.cast_nonneg _))) (add_le_add seconds start)

-- `skynet.time` is off by no more than three roundings, one after the other.
def Near (build : Build) (TI : Clock) : Prop :=
  clockTime TI * (1 - part build.precision) ^ 3 ≤ skynetTime build TI ∧
    skynetTime build TI ≤ clockTime TI * (1 + part build.precision) ^ 3

theorem skynetTime_near {TI : Clock} (shown : Shown build TI) : Near build TI := by
  have more := part_nonneg build.precision
  have less : 0 ≤ 1 - part build.precision := sub_nonneg.mpr (part_le_one _)
  have current : (0 : ℚ) ≤ TI.current.toNat := Nat.cast_nonneg _
  have starttime : (0 : ℚ) ≤ TI.starttime.toNat := Nat.cast_nonneg _
  rw [Near, skynetTime_shown shown]
  change (_ / 100 + _ : ℚ) * _ ≤ _ ∧ _ ≤ (_ / 100 + _ : ℚ) * _
  simp only [skynetGettime, skynetGettimeFixsec]
  generalize (TI.current.toNat : ℚ) = now at *
  generalize (TI.starttime.toNat : ℚ) = start at *
  generalize build.precision = precision at *
  have now_ : 0 ≤ toPrecision precision now := toPrecision_nonneg current
  have hundredth : 0 ≤ toPrecision precision now / 100 := div_nonneg now_ (by norm_num)
  have sum : 0 ≤ toPrecision precision (toPrecision precision now / 100) +
      toPrecision precision start :=
    add_nonneg (toPrecision_nonneg hundredth) (toPrecision_nonneg starttime)
  constructor
  · have first : now * (1 - part precision) ≤ toPrecision precision now := le_toPrecision current
    have second : toPrecision precision now / 100 * (1 - part precision) ≤
        toPrecision precision (toPrecision precision now / 100) := le_toPrecision hundredth
    have third : start * (1 - part precision) ≤ toPrecision precision start :=
      le_toPrecision starttime
    have again : start * (1 - part precision) * (1 - part precision) ≤
        start * (1 - part precision) :=
      mul_le_of_le_one_right (mul_nonneg starttime less) (by linarith)
    calc (now / 100 + start) * (1 - part precision) ^ 3
        = (now * (1 - part precision) / 100 * (1 - part precision) +
            start * (1 - part precision) * (1 - part precision)) * (1 - part precision) := by ring
      _ ≤ (toPrecision precision now / 100 * (1 - part precision) +
            start * (1 - part precision)) * (1 - part precision) := by gcongr
      _ ≤ (toPrecision precision (toPrecision precision now / 100) + toPrecision precision start) *
            (1 - part precision) := by gcongr
      _ ≤ _ := le_toPrecision sum
  · have first : toPrecision precision now ≤ now * (1 + part precision) := toPrecision_le current
    have second : toPrecision precision (toPrecision precision now / 100) ≤
        toPrecision precision now / 100 * (1 + part precision) := toPrecision_le hundredth
    have third : toPrecision precision start ≤ start * (1 + part precision) :=
      toPrecision_le starttime
    have again : start * (1 + part precision) ≤
        start * (1 + part precision) * (1 + part precision) :=
      le_mul_of_one_le_right (by positivity) (by linarith)
    calc toPrecision precision (toPrecision precision (toPrecision precision now / 100) +
          toPrecision precision start)
        ≤ (toPrecision precision (toPrecision precision now / 100) + toPrecision precision start) *
            (1 + part precision) := toPrecision_le sum
      _ ≤ (toPrecision precision now / 100 * (1 + part precision) +
            start * (1 + part precision)) * (1 + part precision) := by gcongr
      _ ≤ (now * (1 + part precision) / 100 * (1 + part precision) +
            start * (1 + part precision) * (1 + part precision)) * (1 + part precision) := by gcongr
      _ = (now / 100 + start) * (1 + part precision) ^ 3 := by ring

theorem current_le {TI : Clock} {points : List UInt64} (steady : Steady TI.currentPoint points)
    (unwrapped : TI.current.toNat + elapsed TI.currentPoint points < 2 ^ 32) :
    (updatetimes TI points).current.toNat = TI.current.toNat + elapsed TI.currentPoint points ∧
      (updatetimes TI points).starttime = TI.starttime := by
  obtain ⟨current, starttime⟩ := updatetimes_counts TI points steady
  have small := TI.starttime.toNat_lt
  refine ⟨by omega, UInt32.toNat_inj.mp ?_⟩
  rw [starttime, Nat.div_eq_of_lt unwrapped]
  omega

theorem time_follows (TI : Clock) (points : List UInt64) (steady : Steady TI.currentPoint points)
    (unwrapped : TI.current.toNat + elapsed TI.currentPoint points < 2 ^ 32) :
    (∀ front rest, points = front ++ rest →
        clockTime (updatetimes TI front) = clockTime TI + elapsed TI.currentPoint front / 100 ∧
          (Shown build (updatetimes TI front) → Near build (updatetimes TI front))) ∧
      ∀ front middle rest, points = front ++ middle ++ rest →
        Shown build (updatetimes TI (front ++ middle)) →
        skynetTime build (updatetimes TI front) ≤
          skynetTime build (updatetimes TI (front ++ middle)) := by
  refine ⟨fun front rest split => ⟨(time_exact_iff TI points steady).mpr unwrapped front rest split,
    skynetTime_near⟩, fun front middle rest split shown => ?_⟩
  have sooner := elapsed_append TI.currentPoint front middle
  have later := elapsed_append TI.currentPoint (front ++ middle) rest
  rw [split] at steady unwrapped
  have part := steady_append _ _ _ steady
  obtain ⟨before, same⟩ := current_le (steady_append _ _ _ part) (by omega)
  obtain ⟨after, same'⟩ := current_le part (by omega)
  have current : (updatetimes TI front).current.toNat ≤
      (updatetimes TI (front ++ middle)).current.toNat := by omega
  have starttime : (updatetimes TI front).starttime.toNat =
      (updatetimes TI (front ++ middle)).starttime.toNat := by rw [same, same']
  exact skynetTime_mono ⟨current.trans_lt shown.1, starttime ▸ shown.2⟩ shown current starttime.le

theorem time_follows_day :
    (∀ front rest, [(100 : UInt64), 8640100] = front ++ rest →
        clockTime (updatetimes (skynetTimerInit 1400000000 7 0) front) =
            clockTime (skynetTimerInit 1400000000 7 0) + elapsed 0 front / 100 ∧
          (Shown .lua32 (updatetimes (skynetTimerInit 1400000000 7 0) front) →
            Near .lua32 (updatetimes (skynetTimerInit 1400000000 7 0) front))) ∧
      ∀ front middle rest, [(100 : UInt64), 8640100] = front ++ middle ++ rest →
        Shown .lua32 (updatetimes (skynetTimerInit 1400000000 7 0) (front ++ middle)) →
        skynetTime .lua32 (updatetimes (skynetTimerInit 1400000000 7 0) front) ≤
          skynetTime .lua32 (updatetimes (skynetTimerInit 1400000000 7 0) (front ++ middle)) :=
  time_follows (skynetTimerInit 1400000000 7 0) [100, 8640100] (by simp [Steady, skynetTimerInit])
    (by decide)

end

-- A centisecond is less than what two floats of this size are apart, and a day is not.
theorem time_stands_still :
    Steady 0 [1] ∧ elapsed 0 [1] = 1 ∧
      skynetTime .lua32 (updatetimes (skynetTimerInit 1400000000 0 0) [1]) =
        skynetTime .lua32 (skynetTimerInit 1400000000 0 0) ∧
      skynetTime .lua32 (updatetimes (skynetTimerInit 1400000000 0 0) [1]) ≠
        skynetTime .lua32 (skynetTimerInit 1400000000 0 0) + (elapsed 0 [1] : ℕ) / 100 := by
  have still : skynetTime .lua32 (updatetimes (skynetTimerInit 1400000000 0 0) [1]) = 1400000000 := by
    decide +kernel
  have start : skynetTime .lua32 (skynetTimerInit 1400000000 0 0) = 1400000000 := by
    decide +kernel
  refine ⟨by simp [Steady], by decide, still.trans start.symm, ?_⟩
  have one : elapsed 0 [1] = 1 := by decide
  rw [still, start, one]
  norm_num

-- At a wrap the clock loses 96 centiseconds, and its time goes back.
theorem time_wraps :
    Steady 0 [4294967295, 4294967296] ∧
      clockTime (updatetimes (skynetTimerInit 1400000000 0 0) [4294967295, 4294967296]) =
        clockTime (skynetTimerInit 1400000000 0 0) + (elapsed 0 [4294967295, 4294967296] - 96) / 100 ∧
      clockTime (updatetimes (skynetTimerInit 1400000000 0 0) [4294967295, 4294967296]) <
        clockTime (updatetimes (skynetTimerInit 1400000000 0 0) [4294967295]) := by
  have before : updatetimes (skynetTimerInit 1400000000 0 0) [4294967295] =
      { current := 4294967295, starttime := 1400000000, currentPoint := 4294967295,
        originPoint := 0 } := by decide
  have after : updatetimes (skynetTimerInit 1400000000 0 0) [4294967295, 4294967296] =
      { current := 0, starttime := 1442949672, currentPoint := 4294967296, originPoint := 0 } := by
    decide
  refine ⟨by simp [Steady], ?_, ?_⟩
  · rw [after]
    norm_num [clockTime, skynetGettime, skynetGettimeFixsec, skynetTimerInit, elapsed,
      UInt32.toNat_ofNat, UInt64.toNat_ofNat]
  · rw [before, after]
    norm_num [clockTime, skynetGettime, skynetGettimeFixsec, UInt32.toNat_ofNat]

end Pskynet.TimerWheel
