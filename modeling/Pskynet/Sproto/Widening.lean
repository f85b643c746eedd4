import Pskynet.Shared.Region
import Pskynet.Sproto.RoundTrip

set_option autoImplicit false

namespace Pskynet.Sproto

def uint32ToUint64 (negative : Bool) (buffer : Nat) (region : Region) : Region :=
  region.writes (buffer + 4) (signBytes negative)

-- Places are counted from `header`. The first element is copied onto itself.
def moveElement (i : Nat) (region : Region) : Region :=
  let region := region.writes (1 + i * 8) (region.read (1 + i * 4) 4)
  uint32ToUint64 (region.byte (1 + i * 8 + 3) &&& 0x80 ≠ 0) (1 + i * 8) region

-- The first turns of the loop over `i`, which goes down from `count - 1`.
def moveElements (count : Nat) : Nat → Region → Region
  | 0, region => region
  | turns + 1, region => moveElement (count - 1 - turns) (moveElements count turns region)

-- The variables of `encode_integer_array` and the memory from `header` on.
structure Progress where
  intlen : Nat
  buffer : Nat
  index : Nat
  size : Int
  region : Region

def widen (state : Progress) : Option Progress :=
  if state.intlen = 4 then
    let size := state.size - (state.index - 1 : Nat) * 4
    if lessSize size 8 then none
    else
      some
        { intlen := 8
          buffer := state.buffer + (state.index - 1) * 4
          index := state.index
          size := size
          region := moveElements (state.index - 1) (state.index - 1) state.region }
  else some state

def integerTurn (v : Int64) (state : Progress) : Option Progress :=
  if lessSize state.size 8 then none
  else if Narrow v then
    let u := low v
    let region := state.region.writes state.buffer (LittleEndian.bytes 4 u.toNat)
    some
      { state with
        buffer := state.buffer + state.intlen
        index := state.index + 1
        size := state.size - state.intlen
        region :=
          if state.intlen = 8 then uint32ToUint64 (u &&& 0x80000000 ≠ 0) state.buffer region
          else region }
  else
    (widen state).map fun state =>
      { state with
        buffer := state.buffer + state.intlen
        index := state.index + 1
        size := state.size - state.intlen
        region := state.region.writes state.buffer (LittleEndian.bytes 8 v.toUInt64.toNat) }

-- The callback gives the values one after another, in four bytes where they fit, and then nil.
-- The state is that of the last turn, and whether it ended with NULL.
def integerTurns : List Int64 → Progress → Progress × Bool
  | [], state => (state, true)
  | v :: rest, state =>
      match integerTurn v state with
      | none => (state, false)
      | some next => integerTurns rest next

def integerStart (size : Int) (byte : Nat → UInt8) : Progress :=
  { intlen := 4, buffer := 1, index := 1, size := size - 1, region := { byte := byte, reach := 0 } }

def writeIntegerArray (values : List Int64) (size : Int) (byte : Nat → UInt8) :
    Region × Option Nat :=
  if size < 1 then ({ byte := byte, reach := 0 }, none)
  else
    match integerTurns values (integerStart size byte) with
    | (state, false) => (state.region, none)
    | (state, true) =>
        if state.buffer = 1 then (state.region, some 0)
        else (state.region.write 0 (UInt8.ofNat state.intlen), some state.buffer)

section Moving

theorem length_signBytes (negative : Bool) : (signBytes negative).length = 4 := by
  cases negative <;> rfl

theorem byte_moveElement (i : Nat) (region : Region) (place : Nat)
    (outside : place < 1 + i * 8 ∨ 1 + i * 8 + 8 ≤ place) :
    (moveElement i region).byte place = region.byte place := by
  simp only [moveElement, uint32ToUint64, Region.byte_writes, Region.length_read, length_signBytes]
  rw [if_neg (by omega), if_neg (by omega)]

theorem reach_moveElement (i : Nat) (region : Region) :
    (moveElement i region).reach = max region.reach (1 + i * 8 + 8) := by
  have signs (negative : Bool) : signBytes negative ≠ [] := by cases negative <;> simp [signBytes]
  have word : region.read (1 + i * 4) 4 ≠ [] := by
    apply List.ne_nil_of_length_pos
    rw [Region.length_read]
    norm_num
  simp only [moveElement, uint32ToUint64, Region.reach_writes, Region.length_read,
    length_signBytes, if_neg (signs _), if_neg word]
  omega

theorem read_moveElement (i : Nat) (region : Region) (n : Nat) (small : n < 2 ^ 32)
    (element : region.read (1 + i * 4) 4 = LittleEndian.bytes 4 n) :
    (moveElement i region).read (1 + i * 8) 8 = wide n := by
  have copied : (region.writes (1 + i * 8) (LittleEndian.bytes 4 n)).byte (1 + i * 8 + 3) =
      (LittleEndian.bytes 4 n).getD 3 0 := by
    rw [Region.byte_writes, if_pos (by simp), Nat.add_sub_cancel_left]
  have sign : signBytes ((LittleEndian.bytes 4 n).getD 3 0 &&& 0x80 ≠ 0) =
      signBytes (2 ^ 31 ≤ n) := by
    congr 1
    exact decide_eq_decide.mpr (high_byte n small)
  simp only [moveElement, element, copied, uint32ToUint64, sign]
  rw [show 8 = 4 + 4 from rfl, Region.read_add, wide]
  congr 1
  · rw [Region.read_writes_of_disjoint _ _ _ _ _ (.inl (by omega))]
    have whole := Region.read_writes region (1 + i * (4 + 4)) (LittleEndian.bytes 4 n)
    rwa [LittleEndian.length_bytes] at whole
  · have whole := Region.read_writes (region.writes (1 + i * (4 + 4)) (LittleEndian.bytes 4 n))
      (1 + i * (4 + 4) + 4) (signBytes (2 ^ 31 ≤ n))
    rwa [length_signBytes] at whole

theorem byte_moveElements (count turns : Nat) (region : Region) (within : turns ≤ count)
    (place : Nat) (below : place < 1 + (count - turns) * 8) :
    (moveElements count turns region).byte place = region.byte place := by
  induction turns with
  | zero => rfl
  | succ turns ih =>
    have last : count - (turns + 1) = count - 1 - turns := by omega
    rw [moveElements, byte_moveElement _ _ _ (.inl (by omega)), ih (by omega) (by omega)]

theorem reach_moveElements (count turns : Nat) (region : Region) (within : turns ≤ count) :
    (moveElements count turns region).reach =
      if turns = 0 then region.reach else max region.reach (1 + count * 8) := by
  induction turns with
  | zero => rfl
  | succ turns ih =>
    rw [moveElements, reach_moveElement, ih (by omega), if_neg (Nat.succ_ne_zero turns)]
    split_ifs <;> omega

theorem read_unmoved (count turns : Nat) (region : Region) (i : Nat) (unmoved : i + turns < count) :
    (moveElements count turns region).read (1 + i * 4) 4 = region.read (1 + i * 4) 4 := by
  apply Region.read_congr
  intro place _ below
  apply byte_moveElements count turns region (by omega)
  omega

theorem read_moved (count turns : Nat) (within : turns ≤ count) (region : Region)
    (word : Nat → UInt32)
    (elements : ∀ i < count, region.read (1 + i * 4) 4 = LittleEndian.bytes 4 (word i).toNat)
    (i : Nat) (inside : i < count) (moved : count ≤ i + turns) :
    (moveElements count turns region).read (1 + i * 8) 8 = wide (word i).toNat := by
  induction turns with
  | zero => omega
  | succ turns ih =>
    rw [moveElements]
    by_cases here : i = count - 1 - turns
    · rw [← here]
      apply read_moveElement i _ _ (word i).toNat_lt
      rw [read_unmoved count turns region i (by omega)]
      exact elements i inside
    · have before := ih (by omega) (by omega)
      rw [← before]
      apply Region.read_congr
      intro place above _
      apply byte_moveElement
      omega

theorem read_moveElements (values : List Int64) (narrow : ∀ v ∈ values, Narrow v) (region : Region)
    (elements : region.read 1 (values.length * 4) =
      values.flatMap fun v => LittleEndian.bytes 4 v.toUInt64.toNat) :
    (moveElements values.length values.length region).read 1 (values.length * 8) =
      values.flatMap fun v => LittleEndian.bytes 8 v.toUInt64.toNat := by
  rw [Region.read_flatMap_iff _ 4 _ (fun _ => LittleEndian.length_bytes _ _)] at elements
  rw [Region.read_flatMap_iff _ 8 _ (fun _ => LittleEndian.length_bytes _ _)]
  intro i inside
  have moved := read_moved values.length values.length le_rfl region
    (fun j => low (values.getD j 0)) (by
      intro j bound
      rw [elements j bound, ← bytes_low, List.getD_eq_getElem values 0 bound]
      rfl) i inside (by omega)
  rw [moved, bytes_narrow _ (narrow _ (List.get_mem values ⟨i, inside⟩)),
    List.getD_eq_getElem values 0 inside]
  rfl

end Moving

section Turns

variable {whole : Int}

-- What has been written when the values `done` are taken from a buffer of `whole` bytes.
structure Taken (whole : Int) (done : List Int64) (state : Progress) : Prop where
  intlen : state.intlen = arrayWidth done
  buffer : state.buffer = 1 + (arrayBytes done).length
  index : state.index = done.length + 1
  size : state.size = whole - 1 - (arrayBytes done).length
  bytes : state.region.read 1 (arrayBytes done).length = arrayBytes done
  reach : state.region.reach = if done = [] then 0 else 1 + (arrayBytes done).length

theorem integerStart_taken (whole : Int) (byte : Nat → UInt8) :
    Taken whole [] (integerStart whole byte) where
  intlen := rfl
  buffer := rfl
  index := rfl
  size := (sub_zero _).symm
  bytes := rfl
  reach := rfl

theorem taken_next {done : List Int64} {v : Int64} {start : Nat} {region : Region}
    {before bytes : List UInt8} (split : arrayBytes (done ++ [v]) = before ++ bytes)
    (place : start = 1 + before.length) (written : region.read 1 before.length = before)
    (least : region.reach ≤ start) (some_ : bytes ≠ []) :
    (region.writes start bytes).read 1 (arrayBytes (done ++ [v])).length =
        arrayBytes (done ++ [v]) ∧
      (region.writes start bytes).reach = 1 + (arrayBytes (done ++ [v])).length := by
  rw [split, List.length_append]
  constructor
  · rw [Region.read_add, ← place, Region.read_writes,
      Region.read_writes_of_disjoint _ _ _ _ _ (.inl (by omega)), written]
  · rw [Region.reach_writes, if_neg some_]
    omega

theorem reach_le (done : List Int64) (state : Progress) (taken : Taken whole done state) :
    state.region.reach ≤ state.buffer := by
  rw [taken.reach, taken.buffer]
  split_ifs <;> omega

theorem narrow_taken (done : List Int64) (state : Progress) (taken : Taken whole done state)
    (v : Int64) (narrow : Narrow v) (room : lessSize state.size 8 = false) :
    ∃ next, integerTurn v state = some next ∧ Taken whole (done ++ [v]) next := by
  have split := arrayBytes_narrow done v narrow
  have width : arrayWidth (done ++ [v]) = arrayWidth done := by
    rw [arrayWidth_append, if_pos narrow]
  have length := length_arrayBytes done
  have longer := length_arrayBytes (done ++ [v])
  rw [width, List.length_append, List.length_singleton, Nat.succ_mul, ← length] at longer
  have sign : decide (low v &&& 0x80000000 ≠ 0) = decide (2 ^ 31 ≤ (low v).toNat) := by
    apply decide_eq_decide.mpr
    rw [ne_eq, Words.and_sign_eq_zero_iff, not_lt]
  have written : (if state.intlen = 8 then
        uint32ToUint64 (low v &&& 0x80000000 ≠ 0) state.buffer
          (state.region.writes state.buffer (LittleEndian.bytes 4 (low v).toNat))
      else state.region.writes state.buffer (LittleEndian.bytes 4 (low v).toNat)) =
      state.region.writes state.buffer (LittleEndian.bytes 4 (low v).toNat ++
        if arrayWidth done = 8 then signBytes (2 ^ 31 ≤ (low v).toNat) else []) := by
    rw [taken.intlen, ← Region.writes_append, LittleEndian.length_bytes, uint32ToUint64, sign]
    split_ifs <;> rfl
  obtain ⟨bytes, reach⟩ := taken_next split taken.buffer taken.bytes (reach_le done state taken)
    (by simp [LittleEndian.bytes])
  refine ⟨_, by rw [integerTurn, if_neg (by simp [room]), if_pos narrow], ?_⟩
  refine ⟨?_, ?_, ?_, ?_, ?_, ?_⟩
  · exact taken.intlen.trans width.symm
  · simp only [taken.buffer, taken.intlen, longer]
    omega
  · simp [taken.index]
  · simp only [taken.size, taken.intlen, longer]
    push_cast
    omega
  · simp only [written]
    exact bytes
  · simp only [written]
    rw [reach, if_neg (by simp)]

theorem lessSize_iff (size : Int) (least : -2 ^ 63 ≤ size) (most : size < 2 ^ 63) (n : Nat)
    (small : n < 2 ^ 63) : lessSize size n = true ↔ 0 ≤ size ∧ size < n := by
  rw [lessSize, decide_eq_true_iff]
  omega

theorem lessSize_eq_false (size : Int) (least : -2 ^ 63 ≤ size) (most : size < 2 ^ 63) (n : Nat)
    (small : n < 2 ^ 63) (room : size < 0 ∨ n ≤ size) : lessSize size n = false := by
  apply Bool.eq_false_of_not_eq_true
  rw [lessSize_iff size least most n small]
  omega

theorem widen_taken (done : List Int64) (state : Progress) (taken : Taken whole done state)
    (room : arrayWidth done = 4 → lessSize (whole - 1 - done.length * 8) 8 = false) :
    ∃ next, widen state = some next ∧ next.intlen = 8 ∧ next.index = done.length + 1 ∧
      next.buffer = 1 + done.length * 8 ∧ next.size = whole - 1 - done.length * 8 ∧
      next.region.read 1 (done.length * 8) =
        (done.flatMap fun v => LittleEndian.bytes 8 v.toUInt64.toNat) ∧
      next.region.reach ≤ 1 + done.length * 8 := by
  have length := length_arrayBytes done
  have intlen := taken.intlen
  rcases arrayWidth_cases done with four | eight
  · rw [four] at length intlen
    have size : state.size - (state.index - 1 : Nat) * 4 = whole - 1 - done.length * 8 := by
      rw [taken.size, taken.index, length]
      push_cast
      omega
    have elements := taken.bytes
    rw [length, arrayBytes, four] at elements
    have places : state.index - 1 = done.length := by rw [taken.index, Nat.add_sub_cancel]
    have least := reach_le done state taken
    rw [taken.buffer, length] at least
    rw [widen, if_pos intlen]
    dsimp only
    rw [size, room four, places]
    refine ⟨_, rfl, rfl, taken.index, ?_, rfl, ?_, ?_⟩
    · simp only [taken.buffer, length]
      omega
    · exact read_moveElements done (narrow_of_width done four) _ elements
    · simp only [reach_moveElements done.length done.length state.region le_rfl]
      split_ifs <;> omega
  · rw [eight] at length intlen
    refine ⟨state, by rw [widen, if_neg (by omega)], intlen, taken.index, ?_, ?_, ?_, ?_⟩
    · rw [taken.buffer, length]
    · rw [taken.size, length]
      push_cast
      rfl
    · have elements := taken.bytes
      rw [length, arrayBytes, eight] at elements
      exact elements
    · have least := reach_le done state taken
      rwa [taken.buffer, length] at least

theorem wide_taken (done : List Int64) (state : Progress) (taken : Taken whole done state)
    (v : Int64) (wideValue : ¬Narrow v) (room : lessSize state.size 8 = false)
    (widened : arrayWidth done = 4 → lessSize (whole - 1 - done.length * 8) 8 = false) :
    ∃ next, integerTurn v state = some next ∧ Taken whole (done ++ [v]) next := by
  obtain ⟨middle, turn, intlen, index, buffer, size, elements, reach⟩ :=
    widen_taken done state taken widened
  have width : arrayWidth (done ++ [v]) = 8 := by
    rw [arrayWidth_append, if_neg wideValue]
  have before : (done.flatMap fun v => LittleEndian.bytes 8 v.toUInt64.toNat).length =
      done.length * 8 := by
    simp [List.length_flatMap]
  have split : arrayBytes (done ++ [v]) =
      (done.flatMap fun v => LittleEndian.bytes 8 v.toUInt64.toNat) ++
        LittleEndian.bytes 8 v.toUInt64.toNat := by
    rw [arrayBytes, width, List.flatMap_append, List.flatMap_singleton]
  have longer := length_arrayBytes (done ++ [v])
  rw [width, List.length_append, List.length_singleton, Nat.succ_mul] at longer
  obtain ⟨bytes, written⟩ := taken_next split (by rw [before, ← buffer]) (by
    rw [before]
    exact elements) (by rw [buffer]; exact reach) (by simp [LittleEndian.bytes])
  refine ⟨_, by rw [integerTurn, if_neg (by simp [room]), if_neg wideValue, turn]; rfl, ?_⟩
  refine ⟨?_, ?_, ?_, ?_, bytes, ?_⟩
  · exact intlen.trans width.symm
  · simp only [buffer, intlen, longer]
    omega
  · simp [index]
  · simp only [size, intlen, longer]
    push_cast
    omega
  · rw [written, if_neg (by simp)]

theorem integerTurn_taken (done : List Int64) (state : Progress) (taken : Taken whole done state)
    (v : Int64) :
    integerTurn v state = none ∨
      ∃ next, integerTurn v state = some next ∧ Taken whole (done ++ [v]) next := by
  by_cases room : lessSize state.size 8 = true
  · exact .inl (by rw [integerTurn, if_pos room])
  · have roomy : lessSize state.size 8 = false := Bool.eq_false_of_not_eq_true room
    by_cases narrow : Narrow v
    · exact .inr (narrow_taken done state taken v narrow roomy)
    · by_cases full : state.intlen = 4 ∧
          lessSize (state.size - (state.index - 1 : Nat) * 4) 8 = true
      · left
        rw [integerTurn, if_neg room, if_neg narrow, widen, if_pos full.1]
        simp only [full.2]
        rfl
      · right
        apply wide_taken done state taken v narrow roomy
        intro four
        have size : state.size - (state.index - 1 : Nat) * 4 = whole - 1 - done.length * 8 := by
          rw [taken.size, taken.index, length_arrayBytes, four]
          push_cast
          omega
        rw [← size]
        apply Bool.eq_false_of_not_eq_true
        intro short
        exact full ⟨taken.intlen.trans four, short⟩

theorem integerTurns_taken (done rest : List Int64) (state : Progress)
    (taken : Taken whole done state) :
    ∃ used left, rest = used ++ left ∧ Taken whole (done ++ used) (integerTurns rest state).1 ∧
      ((integerTurns rest state).2 = true → left = []) := by
  induction rest generalizing done state with
  | nil =>
    refine ⟨[], [], rfl, ?_, fun _ => rfl⟩
    rw [List.append_nil]
    exact taken
  | cons v rest ih =>
    rw [integerTurns]
    rcases integerTurn_taken done state taken v with stop | ⟨next, turn, later⟩
    · rw [stop]
      exact ⟨[], v :: rest, rfl, by simpa using taken, by simp⟩
    · rw [turn]
      obtain ⟨used, left, split, final, ended⟩ := ih _ _ later
      refine ⟨v :: used, left, by rw [split]; rfl, ?_, ended⟩
      simpa using final

theorem integerTurn_room (v : Int64) (state next : Progress) (turn : integerTurn v state = some next) :
    lessSize state.size 8 = false ∧
      (¬Narrow v → state.intlen = 4 →
        lessSize (state.size - (state.index - 1 : Nat) * 4) 8 = false) := by
  by_cases full : lessSize state.size 8 = true
  · rw [integerTurn, if_pos full] at turn
    cases turn
  · refine ⟨Bool.eq_false_of_not_eq_true full, ?_⟩
    intro wideValue four
    apply Bool.eq_false_of_not_eq_true
    intro short
    rw [integerTurn, if_neg full, if_neg wideValue, widen, if_pos four] at turn
    simp only [short] at turn
    cases turn

theorem widen_size (state middle : Progress) (widened : widen state = some middle) :
    middle.size ≤ state.size := by
  rw [widen] at widened
  dsimp only at widened
  split_ifs at widened <;> cases widened
  · simp only
    omega
  · exact le_rfl

theorem integerTurn_size (v : Int64) (state next : Progress) (turn : integerTurn v state = some next) :
    next.size ≤ state.size := by
  by_cases narrow : Narrow v
  · have room := (integerTurn_room v state next turn).1
    rw [integerTurn, if_neg (by simp [room]), if_pos narrow] at turn
    cases turn
    simp only
    omega
  · have room := (integerTurn_room v state next turn).1
    rw [integerTurn, if_neg (by simp [room]), if_neg narrow] at turn
    obtain ⟨middle, widened, same⟩ := Option.map_eq_some_iff.mp turn
    have smaller := widen_size state middle widened
    cases same
    simp only
    omega

theorem integerTurns_size (values : List Int64) (state : Progress) :
    (integerTurns values state).1.size ≤ state.size := by
  induction values generalizing state with
  | nil => exact le_rfl
  | cons v rest ih =>
    rw [integerTurns]
    cases turn : integerTurn v state with
    | none => exact le_rfl
    | some next => exact (ih next).trans (integerTurn_size v state next turn)

def leading (values : List Int64) : Nat := (values.takeWhile fun v => decide (Narrow v)).length

-- The first element of eight bytes finds room for itself, but the others do not find room to
-- move: `size` falls below zero, which passes for a large `size_t`.
def Overruns (values : List Int64) (size : Int) : Prop :=
  leading values < values.length ∧ 9 + 4 * leading values ≤ size ∧ size ≤ 8 * leading values

theorem leading_append (done rest : List Int64) (narrow : ∀ v ∈ done, Narrow v) :
    leading (done ++ rest) = done.length + leading rest := by
  unfold leading
  rw [List.takeWhile_append_of_pos (by simpa using narrow), List.length_append]

theorem arrayWidth_narrow (values : List Int64) (narrow : ∀ v ∈ values, Narrow v) :
    arrayWidth values = 4 := by
  rw [arrayWidth, if_pos narrow]

theorem integerTurn_inside (done rest : List Int64) (v : Int64) (state next : Progress)
    (taken : Taken whole done state) (least : 0 ≤ state.size)
    (free : ¬Overruns (done ++ v :: rest) whole) (turn : integerTurn v state = some next) :
    Taken whole (done ++ [v]) next ∧ 0 ≤ next.size := by
  have later : Taken whole (done ++ [v]) next := by
    rcases integerTurn_taken done state taken v with stop | ⟨other, same, later⟩
    · rw [stop] at turn
      cases turn
    · rw [same] at turn
      cases turn
      exact later
  refine ⟨later, ?_⟩
  obtain ⟨room, widened⟩ := integerTurn_room v state next turn
  have size := taken.size
  have length := length_arrayBytes done
  have longer := length_arrayBytes (done ++ [v])
  have enough : 8 ≤ state.size := by
    by_contra short
    rw [(lessSize_iff state.size (by omega) (by omega) 8 (by norm_num)).mpr (by omega)] at room
    cases room
  rw [later.size, longer, arrayWidth_append, List.length_append, List.length_singleton]
  rw [length] at size
  rcases arrayWidth_cases done with four | eight
  · rw [four] at size ⊢
    split_ifs with narrow
    · push_cast at size ⊢
      omega
    · have moved := widened narrow (taken.intlen.trans four)
      rw [taken.index, Nat.add_sub_cancel] at moved
      by_contra negative
      apply free
      have all := leading_append done (v :: rest) (narrow_of_width done four)
      have here : leading (v :: rest) = 0 := by simp [leading, narrow]
      push_cast at size negative
      have below : state.size - (done.length : Int) * 4 < 0 := by
        by_contra above
        rw [(lessSize_iff _ (by omega) (by omega) 8 (by norm_num)).mpr (by omega)] at moved
        cases moved
      refine ⟨?_, ?_, ?_⟩
      · rw [all, here, List.length_append, List.length_cons]
        omega
      · rw [all, here]
        push_cast
        omega
      · rw [all, here]
        push_cast
        omega
  · rw [eight] at size ⊢
    split_ifs <;> push_cast at size ⊢ <;> omega

theorem integerTurns_inside (done rest : List Int64) (state : Progress)
    (taken : Taken whole done state) (least : 0 ≤ state.size)
    (free : ¬Overruns (done ++ rest) whole) : 0 ≤ (integerTurns rest state).1.size := by
  induction rest generalizing done state with
  | nil => exact least
  | cons v rest ih =>
    rw [integerTurns]
    cases turn : integerTurn v state with
    | none => exact least
    | some next =>
      obtain ⟨later, inside⟩ := integerTurn_inside done rest v state next taken least free turn
      apply ih (done ++ [v]) next later inside
      rwa [List.append_assoc]

theorem integerTurns_overruns (done rest : List Int64) (state : Progress) (int : whole < 2 ^ 31)
    (taken : Taken whole done state) (narrow : ∀ v ∈ done, Narrow v)
    (beyond : Overruns (done ++ rest) whole) : (integerTurns rest state).1.size < 0 := by
  have size := taken.size
  rw [length_arrayBytes, arrayWidth_narrow done narrow] at size
  induction rest generalizing done state with
  | nil =>
    have few := beyond.1
    rw [leading_append done [] narrow, List.append_nil] at few
    exact absurd few (by simp [leading])
  | cons v rest ih =>
    have low := beyond.2.1
    have high := beyond.2.2
    rw [leading_append done (v :: rest) narrow] at low high
    push_cast at low high size
    have room : lessSize state.size 8 = false :=
      lessSize_eq_false _ (by omega) (by omega) 8 (by norm_num) (by omega)
    rw [integerTurns]
    by_cases small : Narrow v
    · obtain ⟨next, turn, later⟩ := narrow_taken done state taken v small room
      have all : ∀ w ∈ done ++ [v], Narrow w := by
        intro w inside
        rcases List.mem_append.mp inside with old | new_
        · exact narrow w old
        · rw [List.mem_singleton.mp new_]
          exact small
      rw [turn]
      apply ih (done ++ [v]) next later all
      · rwa [List.append_assoc]
      · rw [later.size, length_arrayBytes, arrayWidth_narrow _ all]
    · have here : leading (v :: rest) = 0 := by simp [leading, small]
      rw [here] at low high
      obtain ⟨next, turn, later⟩ := wide_taken done state taken v small room (by
        intro four
        exact lessSize_eq_false _ (by omega) (by omega) 8 (by norm_num) (by omega))
      rw [turn]
      have below := later.size
      rw [length_arrayBytes, arrayWidth_append, if_neg small, List.length_append,
        List.length_singleton] at below
      push_cast at below
      have final : (integerTurns rest next).1.size ≤ next.size := integerTurns_size rest next
      have negative : next.size < 0 := by omega
      exact lt_of_le_of_lt final negative

theorem integerTurns_ends (done rest : List Int64) (state : Progress) (int : whole < 2 ^ 31)
    (taken : Taken whole done state) (room : 1 + 8 * (done.length + rest.length : Int) ≤ whole) :
    (integerTurns rest state).2 = true := by
  induction rest generalizing done state with
  | nil => rfl
  | cons v rest ih =>
    have size := taken.size
    rw [length_arrayBytes] at size
    rw [List.length_cons] at room
    push_cast at room size
    have bounds : 8 ≤ state.size ∧ state.size < 2 ^ 31 := by
      rcases arrayWidth_cases done with width | width <;>
      · rw [width] at size
        push_cast at size
        omega
    have roomy : lessSize state.size 8 = false :=
      lessSize_eq_false _ (by omega) (by omega) 8 (by norm_num) (by omega)
    have turned : ∃ next, integerTurn v state = some next ∧ Taken whole (done ++ [v]) next := by
      by_cases small : Narrow v
      · exact narrow_taken done state taken v small roomy
      · apply wide_taken done state taken v small roomy
        intro _
        exact lessSize_eq_false _ (by omega) (by omega) 8 (by norm_num) (by omega)
    obtain ⟨next, turn, later⟩ := turned
    rw [integerTurns, turn]
    apply ih (done ++ [v]) next later
    rw [List.length_append, List.length_singleton]
    push_cast
    omega

end Turns

-- The array of a buffer that has room for it: the width, the elements in that width, and what
-- `decode_array` gives the callback for them. Nothing is written for an empty array.
def Encoded (values : List Int64) (region : Region) (last : Nat) : Prop :=
  region.read 0 last =
      (if values = [] then [] else UInt8.ofNat (arrayWidth values) :: arrayBytes values) ∧
    (values ≠ [] → ∀ (cb : DecodeCallback) (field : Field) (rest : List UInt8) (start : DecodeUd),
      field.type = .integer →
        decodeArray cb field last (region.read 0 last ++ rest) start =
          decodeValues cb (fun i => (values.getD i 0).toUInt64) values.length start)

structure WritesArray (values : List Int64) (size : Int) : Prop where
  enough : 1 + 8 * values.length ≤ size →
    ∀ byte, ((writeIntegerArray values size byte).2).isSome
  encoded : ∀ byte region last, writeIntegerArray values size byte = (region, some last) →
    Encoded values region last
  unmoved : ∀ region turns i, i + turns < leading values →
    (moveElements (leading values) turns region).read (1 + i * 4) 4 = region.read (1 + i * 4) 4
  inside : ∀ byte, (writeIntegerArray values size byte).1.reach ≤ size.toNat

theorem decodeValues_congr (cb : DecodeCallback) (value other : Nat → UInt64) (count : Nat)
    (same : ∀ i < count, value i = other i) (ud : DecodeUd) :
    decodeValues cb value count ud = decodeValues cb other count ud := by
  unfold decodeValues
  induction count with
  | zero => rfl
  | succ count ih =>
    rw [List.range_succ, List.foldlM_append, List.foldlM_append,
      ih fun i inside => same i (Nat.lt_succ_of_lt inside)]
    simp only [List.foldlM_cons, List.foldlM_nil, same count (Nat.lt_succ_self count)]

theorem encoded_of_read (values : List Int64) (region : Region) (last : Nat)
    (ends : last = if values = [] then 0 else 1 + (arrayBytes values).length)
    (read : region.read 0 last =
      if values = [] then [] else UInt8.ofNat (arrayWidth values) :: arrayBytes values) :
    Encoded values region last := by
  refine ⟨read, ?_⟩
  intro some_ cb field rest start type
  rw [if_neg some_] at ends read
  obtain ⟨value, decoded, element⟩ := decodeArray_integers field cb type values rest start
  rw [read, ends, Nat.add_comm, ← Nat.succ_eq_add_one, decoded]
  apply decodeValues_congr
  intro i inside
  rw [element i inside, List.getD_eq_getElem values 0 inside]
  rfl

theorem writeIntegerArray_encoded (values : List Int64) (size : Int) (byte : Nat → UInt8)
    (region : Region) (last : Nat) (done : writeIntegerArray values size byte = (region, some last)) :
    Encoded values region last := by
  obtain ⟨used, left, split, taken, ended⟩ :=
    integerTurns_taken [] values _ (integerStart_taken size byte)
  rw [writeIntegerArray] at done
  by_cases none_ : size < 1
  · rw [if_pos none_] at done
    cases done
  rw [if_neg none_] at done
  rcases run : integerTurns values (integerStart size byte) with ⟨state, finished⟩
  rw [run] at taken ended done
  cases finished with
  | false => cases done
  | true =>
    have whole : used = values := by
      rw [split, ended rfl, List.append_nil]
    rw [List.nil_append, whole] at taken
    have length := length_arrayBytes values
    dsimp only at done
    split_ifs at done with start
    · cases done
      have empty : values = [] := by
        by_contra some_
        have longer := List.length_pos_iff.mpr some_
        rw [taken.buffer, length] at start
        rcases arrayWidth_cases values with width | width <;> rw [width] at start <;> omega
      subst empty
      exact encoded_of_read [] _ 0 rfl rfl
    · cases done
      have some_ : values ≠ [] := by
        intro empty
        apply start
        rw [taken.buffer, empty]
        rfl
      apply encoded_of_read
      · rw [if_neg some_]
        exact taken.buffer
      · rw [if_neg some_, taken.buffer, Region.read_add, taken.intlen]
        have header : (state.region.writes 0 [UInt8.ofNat (arrayWidth values)]).read 0 1 =
            [UInt8.ofNat (arrayWidth values)] :=
          Region.read_writes state.region 0 [UInt8.ofNat (arrayWidth values)]
        have elements : (state.region.writes 0 [UInt8.ofNat (arrayWidth values)]).read (0 + 1)
            (arrayBytes values).length = arrayBytes values := by
          rw [Region.read_writes_of_disjoint _ 0 _ (0 + 1) _ (.inr (by simp))]
          exact taken.bytes
        change (state.region.writes 0 [UInt8.ofNat (arrayWidth values)]).read 0 1 ++
          (state.region.writes 0 [UInt8.ofNat (arrayWidth values)]).read (0 + 1) _ = _
        rw [header, elements]
        rfl


theorem writeIntegerArray_reach (values : List Int64) (size : Int) (byte : Nat → UInt8)
    (some_ : 1 ≤ size) :
    (writeIntegerArray values size byte).1.reach ≤ size.toNat ↔
      0 ≤ (integerTurns values (integerStart size byte)).1.size := by
  obtain ⟨used, left, split, taken, ended⟩ :=
    integerTurns_taken [] values _ (integerStart_taken size byte)
  rw [List.nil_append] at taken
  have reach : (writeIntegerArray values size byte).1.reach =
        (integerTurns values (integerStart size byte)).1.region.reach ∨
      (writeIntegerArray values size byte).1.reach =
        max (integerTurns values (integerStart size byte)).1.region.reach 1 := by
    rw [writeIntegerArray, if_neg (by omega)]
    rcases integerTurns values (integerStart size byte) with ⟨state, finished⟩
    cases finished with
    | false => exact .inl rfl
    | true =>
      dsimp only
      split_ifs
      · exact .inl rfl
      · exact .inr rfl
  have last := taken.reach
  have left_ := taken.size
  by_cases empty : used = []
  · rw [if_pos empty] at last
    rw [empty] at left_
    have none_ : (arrayBytes []).length = 0 := rfl
    rw [none_] at left_
    constructor <;> intro _ <;> rcases reach with same | same <;> omega
  · rw [if_neg empty] at last
    constructor <;> intro _ <;> rcases reach with same | same <;> omega

theorem writesArray_iff (values : List Int64) (size : Int32) :
    WritesArray values size.toInt ↔ ¬Overruns values size.toInt := by
  have int : size.toInt < 2 ^ 31 := size.toInt_lt
  constructor
  · intro writes beyond
    have some_ : 1 ≤ size.toInt := by
      have low := beyond.2.1
      omega
    have negative := integerTurns_overruns [] values _ int
      (integerStart_taken size.toInt fun _ => 0) (by simp) beyond
    have inside := (writeIntegerArray_reach values size.toInt (fun _ => 0) some_).mp
      (writes.inside fun _ => 0)
    omega
  · intro free
    refine ⟨?_, writeIntegerArray_encoded values size.toInt, ?_, ?_⟩
    · intro room byte
      have finished := integerTurns_ends [] values _ int
        (integerStart_taken size.toInt byte) (by simpa using room)
      rw [writeIntegerArray, if_neg (by omega)]
      rcases run : integerTurns values (integerStart size.toInt byte) with ⟨state, done⟩
      rw [run] at finished
      dsimp only at finished
      rw [finished]
      dsimp only
      split_ifs <;> rfl
    · intro region turns i before
      exact read_unmoved _ _ _ _ before
    · intro byte
      by_cases some_ : 1 ≤ size.toInt
      · rw [writeIntegerArray_reach values size.toInt byte some_]
        apply integerTurns_inside [] values _ (integerStart_taken size.toInt byte) _ free
        change 0 ≤ size.toInt - 1
        omega
      · rw [writeIntegerArray, if_pos (by omega)]
        exact Nat.zero_le _

section Callback

def Gives (cb : Callback) : Nat → List Int64 → EncodeUd → Prop
  | index, [], ud => ∃ next, cb ud index 8 = .ok (none, next)
  | index, v :: rest, ud =>
      ∃ next, cb ud index 8 =
          .ok (some (if Narrow v then .word (low v) else .qword v.toUInt64), next) ∧
        Gives cb (index + 1) rest next

variable (cb : Callback) {whole : Int}

theorem integerLoop_turn (done : List Int64) (v : Int64) (turns : Nat) (ud after : EncodeUd)
    (state next : Progress) (taken : Taken whole done state)
    (later : Taken whole (done ++ [v]) next) (turn : integerTurn v state = some next)
    (answer : cb ud state.index 8 =
      .ok (some (if Narrow v then .word (low v) else .qword v.toUInt64), after)) :
    integerLoop cb (turns + 1) state.intlen (arrayBytes done) state.index state.size ud =
      integerLoop cb turns next.intlen (arrayBytes (done ++ [v])) next.index next.size after := by
  obtain ⟨room, widened⟩ := integerTurn_room v state next turn
  have index : next.index = state.index + 1 := by
    rw [later.index, taken.index, List.length_append, List.length_singleton]
  have size := later.size
  have before := taken.size
  have length := length_arrayBytes done
  have longer := length_arrayBytes (done ++ [v])
  rw [arrayWidth_append, List.length_append, List.length_singleton] at longer
  rw [integerLoop, answer]
  simp only [bind, Except.bind]
  rw [if_neg (by simp [room])]
  by_cases narrow : Narrow v
  · have intlen : next.intlen = state.intlen := by
      rw [later.intlen, arrayWidth_append, if_pos narrow, taken.intlen]
    have left : next.size = state.size - state.intlen := by
      rw [if_pos narrow, Nat.succ_mul, ← length] at longer
      rw [size, before, longer, taken.intlen]
      push_cast
      omega
    have sign : decide (low v &&& 0x80000000 ≠ 0) = decide (2 ^ 31 ≤ (low v).toNat) := by
      apply decide_eq_decide.mpr
      rw [ne_eq, Words.and_sign_eq_zero_iff, not_lt]
    rw [if_pos narrow]
    dsimp only
    rw [arrayBytes_narrow done v narrow, index, intlen, left, sign, taken.intlen]
  · have intlen : next.intlen = 8 := by
      rw [later.intlen, arrayWidth_append, if_neg narrow]
    have places : state.index - 1 = done.length := by rw [taken.index, Nat.add_sub_cancel]
    rw [if_neg narrow, Nat.succ_mul] at longer
    rw [if_neg narrow]
    dsimp only
    rw [arrayBytes_wide done v narrow, index, intlen, ← taken.intlen]
    by_cases four : state.intlen = 4
    · have left : next.size = state.size - (state.index - 1 : Nat) * 4 - 8 := by
        rw [← taken.intlen, four] at length
        rw [size, before, longer, length, places]
        push_cast
        omega
      rw [if_pos four, if_pos four, widened narrow four, places, left, places]
      rfl
    · have eight : state.intlen = 8 := by
        rcases arrayWidth_cases done with width | width
        · exact absurd (taken.intlen.trans width) four
        · exact taken.intlen.trans width
      have left : next.size = state.size - state.intlen := by
        rw [← taken.intlen, eight] at length
        rw [size, before, longer, length, eight]
        push_cast
        omega
      rw [if_neg four, if_neg four, left, eight]

theorem integerLoop_stop (done : List Int64) (v : Int64) (turns : Nat) (ud after : EncodeUd)
    (state : Progress) (stop : integerTurn v state = none)
    (answer : cb ud state.index 8 =
      .ok (some (if Narrow v then .word (low v) else .qword v.toUInt64), after)) :
    integerLoop cb (turns + 1) state.intlen (arrayBytes done) state.index state.size ud =
      .error .full := by
  rw [integerLoop, answer]
  simp only [bind, Except.bind]
  rw [integerTurn] at stop
  by_cases full : lessSize state.size 8 = true
  · rw [if_pos full]
  · rw [if_neg full] at stop ⊢
    by_cases narrow : Narrow v
    · rw [if_pos narrow] at stop
      cases stop
    · rw [if_neg narrow] at stop ⊢
      have refused := Option.map_eq_none_iff.mp stop
      rw [widen] at refused
      dsimp only at refused ⊢
      split_ifs at refused with four short
      rw [if_pos four, if_pos short]

theorem integerLoop_turns (done values : List Int64) (turns : Nat) (ud : EncodeUd)
    (state : Progress) (enough : values.length < turns) (taken : Taken whole done state)
    (gives : Gives cb state.index values ud) :
    if (integerTurns values state).2 = true then
      ∃ final, integerLoop cb turns state.intlen (arrayBytes done) state.index state.size ud =
        .ok (arrayWidth (done ++ values), arrayBytes (done ++ values), final)
    else integerLoop cb turns state.intlen (arrayBytes done) state.index state.size ud =
      .error .full := by
  induction values generalizing done turns ud state with
  | nil =>
    obtain ⟨turns, rfl⟩ : ∃ n, turns = n + 1 := ⟨turns - 1, by simp at enough; omega⟩
    obtain ⟨next, answer⟩ := gives
    rw [integerTurns, if_pos rfl, integerLoop, answer, taken.intlen, List.append_nil]
    exact ⟨next, rfl⟩
  | cons v rest ih =>
    obtain ⟨turns, rfl⟩ : ∃ n, turns = n + 1 := ⟨turns - 1, by simp at enough; omega⟩
    rw [List.length_cons] at enough
    obtain ⟨after, answer, gives⟩ := gives
    rw [integerTurns]
    rcases integerTurn_taken done state taken v with stop | ⟨next, turn, later⟩
    · rw [stop, if_neg (by simp)]
      exact integerLoop_stop cb done v turns ud after state stop answer
    · have regroup : done ++ v :: rest = done ++ [v] ++ rest := by simp
      have index : next.index = state.index + 1 := by
        rw [later.index, taken.index, List.length_append, List.length_singleton]
      rw [turn, integerLoop_turn cb done v turns ud after state next taken later turn answer, regroup]
      exact ih (done ++ [v]) turns after next (by omega) later (by rwa [index])

theorem encodeIntegerArray_region (values : List Int64) (turns : Nat) (ud : EncodeUd) (size : Int)
    (byte : Nat → UInt8) (enough : values.length < turns) (gives : Gives cb 1 values ud) :
    match writeIntegerArray values size byte with
    | (_, none) => encodeIntegerArray cb turns ud size = .error .full
    | (region, some last) =>
        ∃ final, encodeIntegerArray cb turns ud size = .ok (region.read 0 last, final) := by
  have encoded := writeIntegerArray_encoded values size byte
  have loop := integerLoop_turns cb [] values turns ud _ enough
    (integerStart_taken size byte) gives
  have start : integerLoop cb turns 4 [] 1 (size - 1) ud =
      integerLoop cb turns (integerStart size byte).intlen (arrayBytes [])
        (integerStart size byte).index (integerStart size byte).size ud := rfl
  rcases written : writeIntegerArray values size byte with ⟨region, last | last⟩
  · dsimp only
    rw [writeIntegerArray] at written
    rw [encodeIntegerArray]
    by_cases none_ : size < 1
    · rw [if_pos none_]
    · rw [if_neg none_] at written ⊢
      rcases run : integerTurns values (integerStart size byte) with ⟨state, finished⟩
      rw [run] at written loop
      cases finished with
      | false =>
        rw [start, loop]
        rfl
      | true =>
        dsimp only at written
        split_ifs at written <;> cases written
  · dsimp only
    have bytes := (encoded region last written).1
    rw [writeIntegerArray] at written
    rw [encodeIntegerArray]
    by_cases none_ : size < 1
    · rw [if_pos none_] at written
      cases written
    · rw [if_neg none_] at written ⊢
      rcases run : integerTurns values (integerStart size byte) with ⟨state, finished⟩
      rw [run] at written loop
      cases finished with
      | false => cases written
      | true =>
        obtain ⟨final, loop⟩ := loop
        rw [start, loop, bytes, List.nil_append]
        refine ⟨final, ?_⟩
        simp only [bind, Except.bind, pure, Except.pure]
        by_cases empty : values = []
        · rw [if_pos empty, if_pos ((arrayBytes_isEmpty values).mpr empty)]
        · rw [if_neg empty, if_neg (by rwa [arrayBytes_isEmpty])]

end Callback

theorem writesArray_small_buffer :
    (writeIntegerArray [1, 2, 3, 0x100000000] 21 fun _ => 0).1.reach = 33 ∧
      ¬WritesArray [1, 2, 3, 0x100000000] 21 := by
  have written : (writeIntegerArray [1, 2, 3, 0x100000000] 21 fun _ => 0).1.reach = 33 := by
    decide +kernel
  refine ⟨written, ?_⟩
  intro writes
  have inside := writes.inside fun _ => 0
  rw [written] at inside
  exact absurd inside (by decide)

end Pskynet.Sproto
