import Pskynet.Bson.Extent
import Pskynet.Bson.Index
import Pskynet.Shared.Loop
import Pskynet.Shared.Outcome

set_option autoImplicit false

namespace Pskynet.Bson

open LittleEndian Relation

section

variable (data : List UInt8) (e : Nat)

-- `lmakeindex` goes from an element to where the size of its value leads, also back.
def Skips (p q : Nat) : Prop :=
  ∃ type key v n, elementAt data e p = some (type, key, v) ∧ extent data e type v = some n ∧
    (fieldSize type ≠ 0 → v < 2 ^ 26) ∧ v + n = q ∧ q ≤ e

-- At an element, `lmakeindex` leaves the bytes, or an `int` does not have its place or its
-- length.
def Breaks (p : Nat) : Prop :=
  ∃ type key v, elementAt data e p = some (type, key, v) ∧
    (fieldSize type ≠ 0 ∧ 2 ^ 26 ≤ v ∨
      ∃ n, extent data e type v = some n ∧ (2 ^ 31 + 4 ≤ n ∨ v + n < 0))

end

def Settles {α : Type} (outcome : Except Fault α) : Prop := (∃ a, outcome = .ok a) ∨ Raises outcome

-- With enough turns, a reader returns or raises an error of its own.
def Ends {α : Type} (read : Nat → Except Fault α) : Prop :=
  ∃ enough, ∀ turns, enough ≤ turns → Settles (read turns)

variable {data : List UInt8} {e p v : Nat} {type : UInt8}

-- What a skip of `n` bytes does, forward or back.
structure Jumps (e v : Nat) (n : Int) (outcome : Except Fault Reader) : Prop where
  lands : n < 2 ^ 31 + 4 → v + n ≤ e → e < v + n + 2 ^ 31 → outcome = .ok ⟨v + n, e - (v + n)⟩
  overflows : 2 ^ 31 + 4 ≤ n ∨ v + n + 2 ^ 31 ≤ e → outcome = .error .overflow
  raises : n < 2 ^ 31 + 4 → e < v + n → Raises outcome

def Skipped (data : List UInt8) (e : Nat) (type : UInt8) (v : Nat) : Prop :=
  (∀ n, extent data e type v = some n → Jumps e v n (skipValue data (upTo e v) type)) ∧
    (extent data e type v = none → Raises (skipValue data (upTo e v) type))

theorem skipped_none (missing : extent data e type v = none)
    (raises : Raises (skipValue data (upTo e v) type)) : Skipped data e type v := by
  refine ⟨fun n here => ?_, fun _ => raises⟩
  cases missing.symm.trans here

theorem skipped_some {n : Int} (size : extent data e type v = some n)
    (jumps : Jumps e v n (skipValue data (upTo e v) type)) : Skipped data e type v := by
  refine ⟨fun m here => ?_, fun missing => ?_⟩
  · obtain rfl := Option.some.inj (size.symm.trans here)
    exact jumps
  · cases size.symm.trans missing

theorem int_beyond {n : Int} (beyond : n < -2 ^ 31 ∨ 2 ^ 31 ≤ n) : int n = .error .overflow := by
  unfold int
  cases done : CInt.arith n with
  | none => rfl
  | some m =>
    obtain ⟨rfl, low, high⟩ := CInt.arith_some done
    omega

theorem jumps_within {n : Nat} {outcome : Except Fault Reader} (small : e < 2 ^ 31)
    (within : v + n ≤ e) (same : outcome = .ok (upTo e (v + n))) : Jumps e v n outcome where
  lands _ _ _ := by rw [same, upTo, Nat.cast_add]
  overflows far := by omega
  raises _ beyond := by omega

theorem skipped_special (small : e < 2 ^ 31) (before : v ≤ e)
    (special : type = bsonMinkey ∨ type = bsonMaxkey ∨ type = bsonNull) :
    Skipped data e type v := by
  have size : extent data e type v = some (0 : Nat) := by
    rcases special with rfl | rfl | rfl <;> rfl
  have same : skipValue data (upTo e v) type = .ok (upTo e v) := by
    rcases special with rfl | rfl | rfl <;> rfl
  exact skipped_some size (jumps_within small before same)

theorem fixed_extent (fixed : fieldSize type ≠ 0) :
    extent data e type v = some (fieldSize type : Int) := if_pos fixed

theorem fieldSize_le (type : UInt8) : fieldSize type ≤ 12 := by
  unfold fieldSize
  split_ifs <;> omega

theorem indexId_place (type : UInt8) (v : Nat) :
    (v < 2 ^ 26 → ∃ id, indexId type v = .ok id) ∧ (2 ^ 26 ≤ v → indexId type v = .error .overflow) := by
  rw [indexId_eq]
  constructor
  · exact fun low => ⟨_, if_pos low⟩
  · exact fun high => if_neg (Nat.not_lt.mpr high)

def types : List UInt8 :=
  [bsonReal, bsonString, bsonDocument, bsonArray, bsonBinary, bsonObjectid, bsonBoolean, bsonDate,
    bsonNull, bsonRegex, bsonDbpointer, bsonJscode, bsonSymbol, bsonCodews, bsonInt32,
    bsonTimestamp, bsonInt64, bsonMinkey, bsonMaxkey]

theorem extent_unknown (unknown : type ∉ types) : extent data e type v = none := by
  simp only [types, List.mem_cons, List.not_mem_nil, or_false, not_or] at unknown
  simp [extent, fieldSize, uncounted, unknown]

section

variable (inside : e ≤ data.length)

include inside

theorem skipBytes_jumps (more : Int) {sz : Int} (found : numberAt data e v = some sz) :
    Jumps e v (sz + (more + 4)) (skipBytes data (upTo e v) more) := by
  obtain ⟨room, -, low, high⟩ := numberAt_some found
  unfold skipBytes
  rw [readInt32_some inside found]
  constructor
  · intro few within near
    change (int (sz + more) >>= _) = _
    rw [int_eq (by omega) (by omega)]
    change (readBytes (upTo e (v + 4)) (sz + more)).map _ = _
    rw [readBytes_within (by omega) (by omega)]
    exact congrArg Except.ok (by simp only [Reader.mk.injEq]; omega)
  · intro far
    change (int (sz + more) >>= _) = _
    by_cases fits : -2 ^ 31 ≤ sz + more ∧ sz + more < 2 ^ 31
    · rw [int_eq fits.1 fits.2]
      change (readBytes (upTo e (v + 4)) (sz + more)).map _ = _
      rw [readBytes_far (by omega) (by omega)]
      rfl
    · rw [int_beyond (by omega)]
      rfl
  · intro few beyond
    change Raises (int (sz + more) >>= _)
    rw [int_eq (by omega) (by omega)]
    exact (readBytes_beyond (by omega)).map _

theorem skipped_counted (more : Int)
    (same : ∀ br, skipValue data br type = skipBytes data br more)
    (size : extent data e type v = (numberAt data e v).map (· + (more + 4))) :
    Skipped data e type v := by
  cases found : numberAt data e v with
  | none =>
    rw [found] at size
    refine skipped_none size ?_
    rw [same]
    exact (readInt32_none found).bind _
  | some sz =>
    rw [found, Option.map_some] at size
    refine skipped_some size ?_
    rw [same]
    exact skipBytes_jumps inside more found

theorem skipped_regex (small : e < 2 ^ 31) (before : v ≤ e) : Skipped data e bsonRegex v := by
  have size : extent data e bsonRegex v = (textAt data e v).bind fun r1 =>
      (textAt data e (v + (r1.length + 1))).map fun r2 =>
        ((r1.length + 1 + (r2.length + 1) : Nat) : Int) := rfl
  have same : skipValue data (upTo e v) bsonRegex =
      (readCstring data (upTo e v) >>= fun r => (readCstring data r.2).map (·.2)) := rfl
  cases first : textAt data e v with
  | none =>
    rw [first] at size
    refine skipped_none size ?_
    rw [same]
    exact (readCstring_none inside before first).bind _
  | some r1 =>
    have one := textAt_within first
    rw [first, Option.bind_some] at size
    rw [readCstring_some inside before first] at same
    change _ = (readCstring data (upTo e (v + (r1.length + 1)))).map _ at same
    cases second : textAt data e (v + (r1.length + 1)) with
    | none =>
      rw [second] at size
      refine skipped_none size ?_
      rw [same]
      exact (readCstring_none inside one second).map _
    | some r2 =>
      have two := textAt_within second
      rw [second, Option.map_some] at size
      rw [readCstring_some inside one second, Nat.add_assoc] at same
      exact skipped_some size (jumps_within small (by omega) same)

theorem skipValue_skipped (small : e < 2 ^ 31) (before : v ≤ e) (varied : fieldSize type = 0) :
    Skipped data e type v := by
  by_cases known : type ∈ types
  swap
  · have raises : Raises (skipValue data (upTo e v) type) := by
      simp only [types, List.mem_cons, List.not_mem_nil, or_false, not_or] at known
      exact ⟨s!"Invalid bson type : {type}", by simp [skipValue, varied, known]⟩
    exact skipped_none (extent_unknown known) raises
  simp only [types, List.mem_cons, List.not_mem_nil, or_false] at known
  rcases known with rfl | rfl | rfl | rfl | rfl | rfl | rfl | rfl | rfl | rfl | rfl | rfl | rfl |
    rfl | rfl | rfl | rfl | rfl | rfl
  · cases varied
  · exact skipped_counted inside 0 (fun _ => rfl) rfl
  · exact skipped_counted inside (-4) (fun _ => rfl) rfl
  · exact skipped_counted inside (-4) (fun _ => rfl) rfl
  · exact skipped_counted inside 1 (fun _ => rfl) rfl
  · cases varied
  · cases varied
  · cases varied
  · exact skipped_special small before (by decide)
  · exact skipped_regex inside small before
  · exact skipped_counted inside 12 (fun _ => rfl) rfl
  · exact skipped_counted inside 0 (fun _ => rfl) rfl
  · exact skipped_counted inside 0 (fun _ => rfl) rfl
  · exact skipped_counted inside (-4) (fun _ => rfl) rfl
  · cases varied
  · cases varied
  · cases varied
  · exact skipped_special small before (by decide)
  · exact skipped_special small before (by decide)

section

variable {key : List UInt8} (here : elementAt data e p = some (type, key, v))

include here

theorem indexField_here : indexField data (upTo e p) =
    (skipValue data (upTo e v) type >>= fun br =>
      if fieldSize type = 0 then .ok (none, br)
      else
        indexId type br.ptr >>= fun id =>
          (readBytes br (fieldSize type)).map fun r => (some (key, id), r.2)) := by
  obtain ⟨within, named, typed, place, behind⟩ := elementAt_some here
  unfold indexField
  rw [readByte_within inside within, typed]
  change (readCstring data (upTo e (p + 1)) >>= _) = _
  rw [readCstring_some inside within named, ← place]
  rfl

theorem indexField_fixed_value (fixed : fieldSize type ≠ 0) : indexField data (upTo e p) =
    (indexId type v >>= fun id =>
      (readBytes (upTo e v) (fieldSize type)).map fun r => (some (key, id), r.2)) := by
  rw [indexField_here inside here, skipValue, if_pos fixed]
  change (if fieldSize type = 0 then _ else _) = _
  rw [if_neg fixed]
  rfl

theorem indexField_varied_value (varied : fieldSize type = 0) : indexField data (upTo e p) =
    (skipValue data (upTo e v) type).map fun br => (none, br) := by
  rw [indexField_here inside here]
  cases skipValue data (upTo e v) type with
  | error fault => rfl
  | ok br => exact if_pos varied

end

theorem indexField_skips (small : e < 2 ^ 31) {q : Nat} (skips : Skips data e p q) :
    ∃ added, indexField data (upTo e p) = .ok (added, upTo e q) := by
  obtain ⟨type, key, v, n, here, size, low, there, within⟩ := skips
  have behind := (elementAt_some here).2.2.2.2
  by_cases varied : fieldSize type = 0
  · have jumps := (skipValue_skipped inside small behind varied).1 n size
    rw [indexField_varied_value inside here varied,
      jumps.lands (by omega) (by omega) (by omega), upTo_eq there]
    exact ⟨none, rfl⟩
  · obtain ⟨id, placed⟩ := (indexId_place type v).1 (low varied)
    obtain rfl := Option.some.inj ((fixed_extent varied).symm.trans size)
    rw [indexField_fixed_value inside here varied, placed]
    change ∃ added, (readBytes (upTo e v) _).map _ = _
    rw [readBytes_within (by omega) (by omega), upTo_eq there]
    exact ⟨some (key, id), rfl⟩

theorem indexField_breaks (small : e < 2 ^ 31) (breaks : Breaks data e p) :
    indexField data (upTo e p) = .error .overflow ∨
      ∃ place : Int, place < 0 ∧ indexField data (upTo e p) = .ok (none, ⟨place, e - place⟩) := by
  obtain ⟨type, key, v, here, broken⟩ := breaks
  have behind := (elementAt_some here).2.2.2.2
  by_cases varied : fieldSize type = 0
  · obtain ⟨n, size, broken⟩ := broken.resolve_left fun high => high.1 varied
    have jumps := (skipValue_skipped inside small behind varied).1 n size
    rw [indexField_varied_value inside here varied]
    by_cases far : 2 ^ 31 + 4 ≤ n ∨ v + n + 2 ^ 31 ≤ e
    · exact .inl (by rw [jumps.overflows far]; rfl)
    · exact .inr ⟨v + n, by omega, by rw [jumps.lands (by omega) (by omega) (by omega)]; rfl⟩
  · have high : 2 ^ 26 ≤ v := by
      rcases broken with high | ⟨n, size, broken⟩
      · exact high.2
      · obtain rfl := Option.some.inj ((fixed_extent varied).symm.trans size)
        have few := fieldSize_le type
        omega
    rw [indexField_fixed_value inside here varied, (indexId_place type v).2 high]
    exact .inl rfl

theorem indexField_raises (small : e < 2 ^ 31) (sound : ¬Breaks data e p)
    (stops : ∀ q, ¬Skips data e p q) : Raises (indexField data (upTo e p)) := by
  by_cases within : p < e
  swap
  · exact (readByte_beyond (Nat.not_lt.mp within)).bind _
  cases here : elementAt data e p with
  | none =>
    unfold indexField
    rw [readByte_within inside within]
    exact (readCstring_none inside within (elementAt_none within here)).bind _
  | some element =>
    obtain ⟨type, key, v⟩ := element
    have behind := (elementAt_some here).2.2.2.2
    have tame : ∀ n, extent data e type v = some n → n < 2 ^ 31 + 4 ∧ 0 ≤ v + n := by
      intro n size
      by_contra wild
      exact sound ⟨type, key, v, here, .inr ⟨n, size, by omega⟩⟩
    have beyond : (fieldSize type ≠ 0 → v < 2 ^ 26) → ∀ n, extent data e type v = some n →
        e < v + n := by
      intro low n size
      by_contra room
      have positive := (tame n size).2
      exact stops (v + n).toNat ⟨type, key, v, n, here, size, low, by omega, by omega⟩
    by_cases varied : fieldSize type = 0
    · have skipped := skipValue_skipped inside small behind varied
      rw [indexField_varied_value inside here varied]
      cases size : extent data e type v with
      | none => exact (skipped.2 size).map _
      | some n =>
        have past := beyond (fun fixed => absurd varied fixed) n size
        exact ((skipped.1 n size).raises (tame n size).1 past).map _
    · have low : v < 2 ^ 26 := by
        by_contra high
        exact sound ⟨type, key, v, here, .inl ⟨varied, Nat.not_lt.mp high⟩⟩
      obtain ⟨id, placed⟩ := (indexId_place type v).1 low
      have past := beyond (fun _ => low) _ (fixed_extent varied)
      rw [indexField_fixed_value inside here varied, placed]
      exact (readBytes_beyond (by omega)).map _

end

theorem not_settles {α : Type} {outcome : Except Fault α} {fault : Fault}
    (same : outcome = .error fault) (other : ∀ message, fault ≠ .error message) :
    ¬Settles outcome := by
  rintro (⟨a, returned⟩ | ⟨message, raised⟩)
  · cases same.symm.trans returned
  · exact other message (Except.error.inj (same.symm.trans raised))

section

variable (inside : e ≤ data.length) (small : e < 2 ^ 31)

include inside small

theorem makeindexLoop_skips {q : Nat} (skips : Skips data e p q) : ∃ added, ∀ turns index,
    makeindexLoop data (turns + 1) (upTo e p) index =
      makeindexLoop data turns (upTo e q) (addIndex index added) := by
  obtain ⟨added, done⟩ := indexField_skips inside small skips
  obtain ⟨type, key, v, n, here, -⟩ := skips
  have within := (elementAt_some here).1
  refine ⟨added, fun turns index => ?_⟩
  rw [makeindexLoop, if_neg (by simp only [upTo]; omega), done]
  rfl

theorem makeindexLoop_breaks (breaks : Breaks data e p) (turns : Nat) (index : Entries) :
    ¬Settles (makeindexLoop data turns (upTo e p) index) := by
  have within : p < e := by
    obtain ⟨type, key, v, here, -⟩ := breaks
    exact (elementAt_some here).1
  cases turns with
  | zero => exact not_settles rfl fun message same => by cases same
  | succ turns =>
    rw [makeindexLoop, if_neg (by simp only [upTo]; omega)]
    rcases indexField_breaks inside small breaks with overflow | ⟨place, negative, left⟩
    · rw [overflow]
      exact not_settles rfl fun message same => by cases same
    rw [left]
    change ¬Settles (makeindexLoop data turns ⟨place, e - place⟩ index)
    cases turns with
    | zero => exact not_settles rfl fun message same => by cases same
    | succ turns =>
      rw [makeindexLoop, if_neg (by simp only; omega)]
      unfold indexField readByte
      rw [checkReader_ok _ 1 (by simp only; omega)]
      change ¬Settles ((((byteAt data place).map _ >>= _) >>= _))
      rw [byteAt, if_pos negative]
      exact not_settles rfl fun message same => by cases same

theorem makeindexLoop_stops (sound : ¬Breaks data e p) (stops : ∀ q, ¬Skips data e p q)
    (turns : Nat) (index : Entries) : Settles (makeindexLoop data (turns + 1) (upTo e p) index) := by
  rw [makeindexLoop]
  split_ifs with done
  · exact .inl ⟨index, rfl⟩
  · exact .inr ((indexField_raises inside small sound stops).bind _)

theorem makeindexLoop_settles (turns : Nat) (p : Nat) (index : Entries)
    (settles : Settles (makeindexLoop data turns (upTo e p) index)) :
    Acc (flip (Skips data e)) p ∧ ∀ q, ReflTransGen (Skips data e) p q → ¬Breaks data e q := by
  induction turns generalizing p index with
  | zero => exact absurd settles (not_settles rfl fun message same => by cases same)
  | succ turns ih =>
    have next : ∀ q, Skips data e p q → Acc (flip (Skips data e)) q ∧
        ∀ q', ReflTransGen (Skips data e) q q' → ¬Breaks data e q' := by
      intro q skips
      obtain ⟨added, same⟩ := makeindexLoop_skips inside small skips
      rw [same] at settles
      exact ih q _ settles
    refine ⟨⟨p, fun q skips => (next q skips).1⟩, fun q reached => ?_⟩
    rcases ReflTransGen.cases_head reached with rfl | ⟨middle, first, rest⟩
    · exact fun breaks => makeindexLoop_breaks inside small breaks _ _ settles
    · exact (next middle first).2 q rest

theorem makeindexLoop_ends (acc : Acc (flip (Skips data e)) p)
    (sound : ∀ q, ReflTransGen (Skips data e) p q → ¬Breaks data e q) :
    ∃ enough, ∀ turns, enough ≤ turns → ∀ index,
      Settles (makeindexLoop data turns (upTo e p) index) := by
  induction acc with
  | intro p _ ih =>
    by_cases goes_on : ∃ q, Skips data e p q
    · obtain ⟨q, skips⟩ := goes_on
      obtain ⟨enough, later⟩ := ih q skips fun q' reached => sound q' (.head skips reached)
      obtain ⟨added, same⟩ := makeindexLoop_skips inside small skips
      refine ⟨enough + 1, fun turns more index => ?_⟩
      obtain ⟨turns, rfl⟩ : ∃ n, turns = n + 1 := ⟨turns - 1, by omega⟩
      rw [same]
      exact later turns (by omega) _
    · refine ⟨1, fun turns more index => ?_⟩
      obtain ⟨turns, rfl⟩ : ∃ n, turns = n + 1 := ⟨turns - 1, by omega⟩
      exact makeindexLoop_stops inside small (sound p .refl) (not_exists.mp goes_on) turns index

end

theorem skips_finite (data : List UInt8) (e p : Nat) : {q | ReflTransGen (Skips data e) p q}.Finite := by
  refine (Set.finite_Iic (max p e)).subset fun q reached => ?_
  cases reached with
  | refl => exact Set.mem_Iic.mpr (le_max_left _ _)
  | tail _ step =>
    obtain ⟨_, _, _, _, -, -, -, -, within⟩ := step
    exact Set.mem_Iic.mpr (le_max_of_le_right within)

section

variable (declared : getLength data = .ok (data.length : Int))

include declared

theorem declared_bounds : 4 ≤ data.length ∧ data.length < 2 ^ 31 ∧
    numberAt data data.length 0 = some (data.length : Int) := by
  obtain ⟨four, found, same⟩ := Outcome.map_ok.mp declared
  have range := CInt.toInt_range (value four)
  have room : 4 ≤ data.length := by
    by_contra short
    rw [bytesAt, if_neg (by omega), if_neg (by omega)] at found
    cases found
  obtain rfl := Except.ok.inj ((bytesAt_within (p := 0) (n := 4) (by omega)).symm.trans found)
  refine ⟨room, by omega, ?_⟩
  rw [numberAt, if_pos (by omega), List.drop_zero]
  exact congrArg some same

theorem lmakeindex_ends_iff :
    Ends (lmakeindex data) ↔ ¬∃ p, ReflTransGen (Skips data (data.length - 1)) 4 p ∧
      (Breaks data (data.length - 1) p ∨ TransGen (Skips data (data.length - 1)) p p) := by
  obtain ⟨room, small, -⟩ := declared_bounds declared
  have inside : data.length - 1 ≤ data.length := Nat.sub_le _ _
  have loop : ∀ turns, lmakeindex data turns =
      makeindexLoop data turns (upTo (data.length - 1) 4) [] := by
    intro turns
    have start : upTo (data.length - 1) 4 = ⟨4, (data.length : Int) - 5⟩ := by
      simp only [upTo, Reader.mk.injEq]
      omega
    rw [lmakeindex, declared, start]
    change (int ((data.length : Int) - 5) >>= _) = _
    rw [int_eq (by omega) (by omega)]
    rfl
  have acyclic := Loop.acc_iff_no_cycle (skips_finite data (data.length - 1) 4)
  constructor
  · rintro ⟨enough, settles⟩ ⟨p, reached, bad⟩
    have last := settles enough (Nat.le_refl _)
    rw [loop] at last
    obtain ⟨acc, sound⟩ := makeindexLoop_settles inside (by omega) enough 4 [] last
    rcases bad with breaks | cycle
    · exact sound p reached breaks
    · exact acyclic.mp acc ⟨p, reached, cycle⟩
  · intro fine
    have acc := acyclic.mpr (by
      rintro ⟨p, reached, cycle⟩
      exact fine ⟨p, reached, .inr cycle⟩)
    obtain ⟨enough, settles⟩ := makeindexLoop_ends inside (by omega) acc
      fun q reached breaks => fine ⟨q, reached, .inl breaks⟩
    refine ⟨enough, fun turns more => ?_⟩
    rw [loop]
    exact settles turns more []

end

def backward : List UInt8 := [12, 0, 0, 0, 2, 97, 0, 249, 255, 255, 255, 0]

theorem backward_element : elementAt backward 11 4 = some (bsonString, [97], 7) := by decide

theorem backward_extent : extent backward 11 bsonString 7 = some (-3) := by decide

theorem backward_skips : Skips backward 11 4 4 :=
  ⟨bsonString, [97], 7, -3, backward_element, backward_extent, by decide, by decide, by decide⟩

-- The one element has the extent -3, and leads back to itself.
theorem backward_turns : ¬Ends (lmakeindex backward) := by
  have declared : getLength backward = .ok (backward.length : Int) := by decide
  exact fun all => (lmakeindex_ends_iff declared).mp all ⟨4, .refl, .inr (.single backward_skips)⟩

end Pskynet.Bson
