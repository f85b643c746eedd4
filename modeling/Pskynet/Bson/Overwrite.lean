import Pskynet.Bson.Index
import Pskynet.Bson.Replace
import Pskynet.Bson.Storable

set_option autoImplicit false

namespace Pskynet.Bson

open LittleEndian

-- Equality as Lua has it for numbers: an integer equals the `double` of its value.
def Exactly (value found : Value) : Prop :=
  Same value found ∨ (∃ i bits, value = .integer i ∧ found = .number bits ∧
    Lua.numisinteger bits = some i) ∨
  ∃ i bits, value = .number bits ∧ found = .integer i ∧ Lua.numisinteger bits = some i

def Fits (type : UInt8) (value : Value) : Prop :=
  if type = bsonReal then
    (∃ bits, value = .number bits) ∨
      ∃ i, value = .integer i ∧ Lua.numisinteger (castDouble i) = some i
  else if type = bsonBoolean then ∃ v, value = .boolean v
  else if type = bsonInt32 then
    ∃ i : Int64, value = .integer i ∧ -2 ^ 31 ≤ i.toInt ∧ i.toInt < 2 ^ 31
  else True

def objectSize (type : UInt8) : Nat :=
  if type = bsonObjectid then 12 else if type = bsonDate then 4 else 8

theorem same_scalar {value found : Value} (scalar : ∀ n entries, found ≠ .table n entries) :
    Same value found ↔ value = found := by
  constructor
  · intro same
    cases same with
    | refl value => rfl
    | table rawlen rawlen' entries entries' values => exact absurd rfl (scalar rawlen' entries')
  · rintro rfl
    exact .refl _

theorem exactly_number (value : Value) (bits : UInt64) :
    Exactly value (.number bits) ↔ value = .number bits ∨
      ∃ i, value = .integer i ∧ Lua.numisinteger bits = some i := by
  rw [Exactly, same_scalar (by simp)]
  simp

theorem exactly_boolean (value : Value) (v : Bool) :
    Exactly value (.boolean v) ↔ value = .boolean v := by
  rw [Exactly, same_scalar (by simp)]
  simp

theorem exactly_integer (i j : Int64) : Exactly (.integer i) (.integer j) ↔ i = j := by
  rw [Exactly, same_scalar (by simp)]
  simp

section

variable (number2str : UInt64 → List UInt8) (str2number : List UInt8 → Option UInt64)

def Refused (type : UInt8) (value : Value) : Prop :=
  if type = bsonReal then tonumber str2number value = none
  else if type = bsonBoolean then False
  else if type = bsonInt32 ∨ type = bsonInt64 then ∀ i, value ≠ .integer i
  else ∀ object, value = .string (0 :: type :: object) → object.length ≠ objectSize type

theorem integerText_first (i : Int64) : (integerText i)[0]? ≠ some 0 := by
  intro zero
  have digits (n : Nat) : (bsonNumstr n)[0]? ≠ some 0 := by
    intro zero
    exact absurd (bsonNumstr_digits n 0 (List.mem_of_getElem? zero)).1 (by decide)
  unfold integerText at zero
  split_ifs at zero with negative
  · exact absurd (Option.some.inj zero) (by decide)
  · exact digits _ zero

theorem checklstring_object (printed : ∀ bits, 0 ∉ number2str bits) (value : Value)
    (str : List UInt8) (done : checklstring number2str value = .ok str) (object : str[0]? = some 0) :
    value = .string str := by
  cases value with
  | string found => rw [Except.ok.inj done]
  | integer i =>
    obtain rfl := Except.ok.inj done
    exact absurd object (integerText_first i)
  | number bits =>
    obtain rfl := Except.ok.inj done
    exact absurd (List.mem_of_getElem? object) (printed bits)
  | nil | boolean | table | userdata | other => cases done

theorem bytes_word (str : List UInt8) (size : str.length = 4) : bytes 4 (word str).toNat = str := by
  have bound := value_lt str
  rw [size] at bound
  have small : value str < 2 ^ 32 := bound
  rw [word, List.take_of_length_le (by omega), UInt32.toNat_ofNat', Nat.mod_eq_of_lt small, ← size,
    bytes_value]

def objectBytes (type : UInt8) (object : List UInt8) : List UInt8 :=
  if type = bsonObjectid then object
  else if type = bsonDate then bytes 8 (Int64.ofNat ((word object).toNat * 1000)).toUInt64.toNat
  else bytes 4 (word object).toNat ++ bytes 4 (word (object.drop 4)).toNat

theorem replaceObject_string (type : UInt8)
    (known : type = bsonObjectid ∨ type = bsonDate ∨ type = bsonTimestamp) (object : List UInt8) :
    (object.length = objectSize type →
      replaceObject number2str type (.string (0 :: type :: object)) = .ok (objectBytes type object)) ∧
    (object.length ≠ objectSize type →
      ∃ text, replaceObject number2str type (.string (0 :: type :: object)) = .error (.error text)) := by
  have whole : replaceObject number2str type (.string (0 :: type :: object)) =
      if object.length + 2 < 6 then .error (.error s!"Type mismatch, need bson type {type}")
      else if type = bsonObjectid then
        if object.length + 2 ≠ 14 then .error (.error "Invalid object id") else .ok object
      else if type = bsonDate then
        if object.length + 2 ≠ 6 then .error (.error "Invalid date")
        else .ok (bytes 8 (Int64.ofNat ((word object).toNat * 1000)).toUInt64.toNat)
      else if object.length + 2 ≠ 10 then .error (.error "Invalid timestamp")
      else .ok (bytes 4 (word object).toNat ++ bytes 4 (word (object.drop 4)).toNat) := by
    change (Except.ok (0 :: type :: object) >>= _) = _
    change (if _ ∨ _ ∨ _ then _ else _) = _
    simp
  rw [whole]
  rcases known with rfl | rfl | rfl
  · have size : objectSize bsonObjectid = 12 := rfl
    rw [size]
    constructor
    · intro exact_
      rw [if_neg (by omega), if_pos rfl, if_neg (by omega)]
      rfl
    · intro other
      rw [if_pos (rfl : bsonObjectid = bsonObjectid)]
      split_ifs
      · exact ⟨_, rfl⟩
      · exact ⟨_, rfl⟩
      · omega
  · have size : objectSize bsonDate = 4 := rfl
    rw [size]
    constructor
    · intro exact_
      rw [if_neg (by omega), if_neg (by decide), if_pos rfl, if_neg (by omega)]
      rfl
    · intro other
      rw [if_neg (by decide : ¬bsonDate = bsonObjectid),
        if_pos (rfl : bsonDate = bsonDate)]
      split_ifs
      · exact ⟨_, rfl⟩
      · exact ⟨_, rfl⟩
      · omega
  · have size : objectSize bsonTimestamp = 8 := rfl
    rw [size]
    constructor
    · intro exact_
      rw [if_neg (by omega), if_neg (by decide), if_neg (by decide), if_neg (by omega)]
      rfl
    · intro other
      rw [if_neg (by decide : ¬bsonTimestamp = bsonObjectid),
        if_neg (by decide : ¬bsonTimestamp = bsonDate)]
      split_ifs
      · exact ⟨_, rfl⟩
      · exact ⟨_, rfl⟩
      · omega

theorem objectBytes_leaf (type : UInt8)
    (known : type = bsonObjectid ∨ type = bsonDate ∨ type = bsonTimestamp) (object : List UInt8)
    (size : object.length = objectSize type) :
    Leaf type (objectBytes type object) (.string (0 :: type :: object)) := by
  rcases known with rfl | rfl | rfl
  · exact .objectid _ size
  · have four : object.length = 4 := size
    have leaf := Leaf.date (Int64.ofNat ((word object).toNat * 1000))
    rwa [date_seconds, bytes_word object four] at leaf
  · have eight : object.length = 8 := size
    have leaf := Leaf.timestamp (word object) (word (object.drop 4))
    have shorter : (object.take 4).length = 4 := by
      rw [List.length_take]
      omega
    have low : bytes 4 (word object).toNat = object.take 4 := by
      have same : word (object.take 4) = word object := by
        rw [word, word, List.take_take]
        rfl
      rw [← same, bytes_word _ shorter]
    have high : bytes 4 (word (object.drop 4)).toNat = object.drop 4 :=
      bytes_word _ (by rw [List.length_drop]; omega)
    rw [low, high, List.take_append_drop] at leaf
    change Leaf bsonTimestamp (bytes 4 (word object).toNat ++ bytes 4 (word (object.drop 4)).toNat) _
    rw [low, high, List.take_append_drop]
    exact leaf

inductive Overwritten (type : UInt8) (value : Value) : Except Fault (List UInt8) → Prop where
  | refused (message : String) (refused : Refused str2number type value) :
      Overwritten type value (.error (.error message))
  | written (bytes : List UInt8) (found : Value) (taken : ¬Refused str2number type value)
      (leaf : Leaf type bytes found) (exact_ : Exactly value found ↔ Fits type value) :
      Overwritten type value (.ok bytes)

theorem replaceObject_overwritten (printed : ∀ bits, 0 ∉ number2str bits) (type : UInt8)
    (known : type = bsonObjectid ∨ type = bsonDate ∨ type = bsonTimestamp) (value : Value) :
    Overwritten str2number type value (replaceObject number2str type value) := by
  have refused_iff : Refused str2number type value ↔
      ∀ object, value = .string (0 :: type :: object) → object.length ≠ objectSize type := by
    rcases known with rfl | rfl | rfl <;> rfl
  have fits : Fits type value := by
    rcases known with rfl | rfl | rfl <;> trivial
  by_cases shape : ∃ object, value = .string (0 :: type :: object)
  · obtain ⟨object, rfl⟩ := shape
    obtain ⟨taken, refused⟩ := replaceObject_string number2str type known object
    by_cases size : object.length = objectSize type
    · rw [taken size]
      refine .written _ _ ?_ (objectBytes_leaf type known object size)
        (iff_of_true (.inl (.refl _)) fits)
      rw [refused_iff]
      exact fun none_ => none_ object rfl size
    · obtain ⟨text, same⟩ := refused size
      rw [same]
      refine .refused text (refused_iff.mpr ?_)
      intro other equal
      cases equal
      exact size
  · have refuse : Refused str2number type value :=
      refused_iff.mpr fun object same => absurd ⟨object, same⟩ shape
    unfold replaceObject
    cases checked : checklstring number2str value with
    | error fault =>
      have message : ∃ text, fault = .error text := by
        cases value <;> cases checked
        all_goals exact ⟨_, rfl⟩
      obtain ⟨text, rfl⟩ := message
      exact .refused text refuse
    | ok data =>
      change Overwritten str2number type value (if _ then _ else _)
      rw [if_pos]
      · exact .refused _ refuse
      · by_contra holds
        rw [not_or, not_or, not_not, not_not] at holds
        obtain ⟨-, first, second⟩ := holds
        have same := checklstring_object number2str printed value data checked first
        cases data with
        | nil => cases first
        | cons zero data =>
          obtain rfl := Option.some.inj first
          cases data with
          | nil => cases second
          | cons type' rest =>
            obtain rfl := Option.some.inj second
            exact shape ⟨rest, same⟩

theorem real_overwritten (value : Value) :
    Overwritten str2number bsonReal value
      ((checknumber str2number value).map fun d => bytes 8 d.toNat) := by
  unfold checknumber
  cases number : tonumber str2number value with
  | none => exact .refused _ number
  | some bits =>
    have taken : ¬Refused str2number bsonReal value := by
      intro refused
      cases number.symm.trans refused
    refine .written _ _ taken (.real bits) ?_
    rw [exactly_number]
    change _ ↔ (_ ∨ _)
    cases value with
    | number other =>
      obtain rfl := Option.some.inj number
      exact iff_of_true (.inl rfl) (.inl ⟨_, rfl⟩)
    | integer i =>
      obtain rfl := Option.some.inj number
      simp
    | string str => simp
    | nil | boolean | table | userdata | other => cases number

theorem boolean_overwritten (value : Value) :
    Overwritten str2number bsonBoolean value (.ok [if toboolean value then 1 else 0]) := by
  have same : decide ((if toboolean value then (1 : UInt8) else 0) ≠ 0) = toboolean value := by
    cases toboolean value <;> rfl
  have leaf := Leaf.boolean (if toboolean value then 1 else 0)
  rw [same] at leaf
  refine .written _ _ id leaf ?_
  rw [exactly_boolean]
  change _ ↔ ∃ v, value = .boolean v
  constructor
  · intro equal
    exact ⟨_, equal⟩
  · rintro ⟨v, rfl⟩
    rfl

theorem narrow_iff (i : Int64) :
    i = i.toInt32.toInt64 ↔ -2 ^ 31 ≤ i.toInt ∧ i.toInt < 2 ^ 31 := by
  constructor
  · exact Words.toInt_of_narrow i
  · rintro ⟨low, high⟩
    rw [← Int64.toInt_inj, Int32.toInt_toInt64, Int64.toInt_toInt32]
    exact (Int.bmod_eq_of_le (by omega) (by omega)).symm

theorem int32_overwritten (value : Value) :
    Overwritten str2number bsonInt32 value
      (match value with
      | .integer i => .ok (bytes 4 i.toInt32.toUInt32.toNat)
      | _ => .error (mismatch number2str str2number 32 value)) := by
  cases value with
  | integer i =>
    have leaf := Leaf.int32 i.toInt32.toUInt32
    rw [Int32.toInt32_toUInt32] at leaf
    refine .written _ _ (fun refused => refused i rfl) leaf ?_
    rw [exactly_integer, narrow_iff]
    change _ ↔ ∃ j, _
    simp
  | nil | boolean | number | string | table | userdata | other => exact .refused _ fun i is => by cases is

theorem int64_overwritten (value : Value) :
    Overwritten str2number bsonInt64 value
      (match value with
      | .integer i => .ok (bytes 8 i.toUInt64.toNat)
      | _ => .error (mismatch number2str str2number 64 value)) := by
  cases value with
  | integer i =>
    exact .written _ _ (fun refused => refused i rfl) (.int64 i)
      (iff_of_true (.inl (.refl _)) trivial)
  | nil | boolean | number | string | table | userdata | other => exact .refused _ fun i is => by cases is

theorem replaceBytes_overwritten (printed : ∀ bits, 0 ∉ number2str bits) (type : UInt8)
    (fixed : fieldSize type ≠ 0) (value : Value) :
    Overwritten str2number type value (replaceBytes number2str str2number type value) := by
  unfold replaceBytes
  by_cases real : type = bsonReal
  · subst real
    rw [if_pos rfl]
    exact real_overwritten str2number value
  rw [if_neg real]
  by_cases boolean : type = bsonBoolean
  · subst boolean
    rw [if_pos rfl]
    exact boolean_overwritten str2number value
  rw [if_neg boolean]
  by_cases object : type = bsonObjectid ∨ type = bsonDate ∨ type = bsonTimestamp
  · rw [if_pos object]
    exact replaceObject_overwritten number2str str2number printed type object value
  rw [if_neg object]
  by_cases narrow : type = bsonInt32
  · subst narrow
    rw [if_pos rfl]
    exact int32_overwritten number2str str2number value
  rw [if_neg narrow]
  by_cases wide : type = bsonInt64
  · subst wide
    rw [if_pos rfl]
    exact int64_overwritten number2str str2number value
  refine absurd ?_ fixed
  rw [not_or, not_or] at object
  rw [fieldSize, if_neg (by simp [wide, object, real]), if_neg boolean, if_neg object.1,
    if_neg narrow]

end

end Pskynet.Bson
