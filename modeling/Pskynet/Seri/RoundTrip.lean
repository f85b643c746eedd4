import Pskynet.Seri.Encoding

set_option autoImplicit false

namespace Pskynet.Seri

open Lua Slots

inductive Same : LuaValue → LuaValue → Prop where
  | scalar (s : Scalar) : Same (.scalar s) (.scalar s)
  | table (rawlen rawlen' : Nat) (entries entries' : Entries)
      (keys : ∀ entry ∈ entries, ∃ key, entry.1 = .scalar key)
      (keys' : ∀ entry ∈ entries', ∃ key, entry.1 = .scalar key)
      (values : ∀ key, Same (rawget entries key) (rawget entries' key)) :
      Same (.table rawlen entries) (.table rawlen' entries')

theorem combineType_parts (type cookie : Nat) (small : type < 8) (narrow : cookie < 32) :
    (combineType type cookie).toNat % 8 = type ∧ (combineType type cookie).toNat / 8 = cookie := by
  have all : ∀ (type : Fin 8) (cookie : Fin 32),
      (combineType type cookie).toNat % 8 = type ∧ (combineType type cookie).toNat / 8 = cookie := by
    decide
  exact all ⟨type, small⟩ ⟨cookie, narrow⟩

theorem rbRead_append (bytes rest : List UInt8) (sz line : Nat) (whole : bytes.length = sz) :
    rbRead (bytes ++ rest) sz line = .ok (bytes, rest) := by
  subst whole
  simp [rbRead]

theorem unpackOne_cons (border : Entries → Nat) (turns room type cookie : Nat) (rb : ReadBlock)
    (small : type < 8) (narrow : cookie < 32) :
    unpackOne border (turns + 1) room (combineType type cookie :: rb) =
      pushValue border (unpackOne border turns) turns room rb type cookie := by
  obtain ⟨low, high⟩ := combineType_parts type cookie small narrow
  have read := rbRead_append [combineType type cookie] rb 1 497 rfl
  rw [List.singleton_append] at read
  simp only [unpackOne, read]
  change pushValue _ _ _ _ _ ((combineType type cookie).toNat % 8)
    ((combineType type cookie).toNat / 8) = _
  rw [low, high]

theorem ofNat_value (v : Int64) (width : Nat) (small : v.toUInt64.toNat < 256 ^ width) :
    Int64.ofNat (LittleEndian.value (LittleEndian.bytes width v.toUInt64.toNat)) = v := by
  rw [LittleEndian.value_bytes_of_lt _ _ small, Words.ofNat_toNat]

theorem dword_value (v : Int64) (narrow : v = v.toInt32.toInt64) :
    (UInt32.ofNat (LittleEndian.value (LittleEndian.bytes 4 v.toUInt64.toNat))).toInt32.toInt64 =
      v := by
  have low : UInt32.ofNat (v.toUInt64.toNat % 256 ^ 4) = v.toInt32.toUInt32 := by
    rw [← UInt32.toNat_inj, UInt32.toNat_ofNat', Words.toNat_low_half]
    exact Nat.mod_mod _ _
  rw [LittleEndian.value_bytes, low]
  exact narrow.symm

theorem qword_value (n : UInt64) :
    UInt64.ofNat (LittleEndian.value (LittleEndian.bytes 8 n.toNat)) = n := by
  rw [LittleEndian.value_bytes_of_lt 8 _ n.toNat_lt, UInt64.ofNat_toNat]

theorem getInteger_bytes (v : Int64) (rest : List UInt8) :
    getInteger (LittleEndian.bytes (integerForm v).2 v.toUInt64.toNat ++ rest) (integerForm v).1 =
      .ok (v, rest) := by
  have read (width line : Nat) := rbRead_append (LittleEndian.bytes width v.toUInt64.toNat) rest width
    line (LittleEndian.length_bytes _ _)
  unfold integerForm
  split_ifs with zero wide negative byte word
  · rw [zero]
    rfl
  · change (rbRead _ 8 362 >>= fun p => pure ((UInt64.ofNat (LittleEndian.value p.1)).toInt64, p.2)) = _
    rw [read]
    change Except.ok ((UInt64.ofNat (LittleEndian.value _)).toInt64, rest) = _
    rw [qword_value]
    rfl
  · change (rbRead _ 4 354 >>= fun p =>
      pure ((UInt32.ofNat (LittleEndian.value p.1)).toInt32.toInt64, p.2)) = _
    rw [read]
    change Except.ok ((UInt32.ofNat (LittleEndian.value _)).toInt32.toInt64, rest) = _
    rw [dword_value v (not_not.mp wide)]
  · have small : (_ : Int) < 256 := Words.toNat_lt_of_lt v 0x100 negative byte
    change (rbRead _ 1 338 >>= fun p => pure (Int64.ofNat (LittleEndian.value p.1), p.2)) = _
    rw [read]
    change Except.ok (Int64.ofNat (LittleEndian.value _), rest) = _
    rw [ofNat_value v 1 (by omega)]
  · have small : (_ : Int) < 65536 := Words.toNat_lt_of_lt v 0x10000 negative word
    change (rbRead _ 2 346 >>= fun p => pure (Int64.ofNat (LittleEndian.value p.1), p.2)) = _
    rw [read]
    change Except.ok (Int64.ofNat (LittleEndian.value _), rest) = _
    rw [ofNat_value v 2 (by omega)]
  · change (rbRead _ 4 354 >>= fun p =>
      pure ((UInt32.ofNat (LittleEndian.value p.1)).toInt32.toInt64, p.2)) = _
    rw [read]
    change Except.ok ((UInt32.ofNat (LittleEndian.value _)).toInt32.toInt64, rest) = _
    rw [dword_value v (not_not.mp wide)]

-- The bytes are read as `value`, whatever follows them, where `slots` of the stack are free.
def Decodes (border : Entries → Nat) (bytes : List UInt8) (slots : Nat) (value : LuaValue) : Prop :=
  ∀ turns room rest, bytes.length ≤ turns →
    unpackOne border turns room (bytes ++ rest) = within .stack room slots (value, rest)

theorem Decodes.of_push {border : Entries → Nat} {slots : Nat} {value : LuaValue}
    (type cookie : Nat) (body : List UInt8) (small : type < 8) (narrow : cookie < 32)
    (push : ∀ turns room rest, body.length ≤ turns →
      pushValue border (unpackOne border turns) turns room (body ++ rest) type cookie =
        within .stack room slots (value, rest)) :
    Decodes border (combineType type cookie :: body) slots value := by
  intro turns room rest long
  cases turns with
  | zero => simp at long
  | succ turns =>
    rw [List.cons_append, unpackOne_cons border turns room type cookie _ small narrow]
    exact push turns room rest (by simpa using long)

theorem integerForm_lt (v : Int64) : (integerForm v).1 < typeNumberReal := by
  unfold integerForm
  split_ifs <;> decide

theorem getBuffer_append (room : Nat) (str rest : List UInt8) (len : Int)
    (whole : len = str.length) :
    getBuffer room (str ++ rest) len = within .stack room 1 (.scalar (.string str), rest) := by
  have read := rbRead_append str rest str.length 397 rfl
  subst whole
  rw [getBuffer, if_neg (by omega), Int.toNat_natCast, read]
  rfl

theorem string_decodes (border : Entries → Nat) (str : List UInt8) (small : str.length < 2 ^ 31) :
    Decodes border (encodeString str) 1 (.scalar (.string str)) := by
  unfold encodeString
  split_ifs with short medium
  · refine .of_push typeShortString str.length str (by decide) short ?_
    intro turns room rest _
    exact getBuffer_append room str rest _ rfl
  · refine .of_push typeLongString 2 _ (by decide) (by decide) ?_
    intro turns room rest _
    rw [List.append_assoc]
    change (rbRead _ 2 462 >>= fun p => getBuffer room p.2 (LittleEndian.value p.1)) = _
    rw [rbRead_append _ _ 2 462 (LittleEndian.length_bytes _ _)]
    change getBuffer room (str ++ rest) (LittleEndian.value _) = _
    refine getBuffer_append room str rest _ ?_
    rw [LittleEndian.value_bytes_of_lt 2 _ medium]
  · refine .of_push typeLongString 4 _ (by decide) (by decide) ?_
    intro turns room rest _
    rw [List.append_assoc]
    change (rbRead _ 4 473 >>= fun p => getBuffer room p.2 (toCInt (LittleEndian.value p.1))) = _
    rw [rbRead_append _ _ 4 473 (LittleEndian.length_bytes _ _)]
    change getBuffer room (str ++ rest) (toCInt (LittleEndian.value _)) = _
    refine getBuffer_append room str rest _ ?_
    rw [LittleEndian.value_bytes_of_lt 4 _ (by omega), toCInt_eq _ small]

theorem integer_decodes (border : Entries → Nat) (v : Int64) :
    Decodes border (encodeInteger v) 1 (.scalar (.integer v)) := by
  have cookie := integerForm_lt v
  refine .of_push typeNumber (integerForm v).1 _ (by decide) (by unfold typeNumberReal at cookie; omega) ?_
  intro turns room rest _
  have pushed : pushValue border (unpackOne border turns) turns room
      (LittleEndian.bytes (integerForm v).2 v.toUInt64.toNat ++ rest) typeNumber (integerForm v).1 =
      (getInteger (LittleEndian.bytes (integerForm v).2 v.toUInt64.toNat ++ rest) (integerForm v).1 >>=
        fun p => push room (.scalar (.integer p.1)) p.2) :=
    if_neg cookie.ne
  rw [pushed, getInteger_bytes]
  rfl

theorem scalar_decodes (border : Entries → Nat) (s : Scalar)
    (small : ∀ str, s = .string str → str.length < 2 ^ 31) :
    Decodes border (encodeScalar s) 1 (.scalar s) := by
  cases s with
  | nil => exact .of_push typeNil 0 [] (by decide) (by decide) fun _ _ _ _ => rfl
  | boolean b =>
    cases b with
    | false => exact .of_push typeBoolean 0 [] (by decide) (by decide) fun _ _ _ _ => rfl
    | true => exact .of_push typeBoolean 1 [] (by decide) (by decide) fun _ _ _ _ => rfl
  | integer v => exact integer_decodes border v
  | number n =>
    refine .of_push typeNumber typeNumberReal _ (by decide) (by decide) ?_
    intro turns room rest _
    change (getReal _ >>= fun p => push room (LuaValue.scalar (.number p.1)) p.2) = _
    rw [getReal, rbRead_append _ _ 8 377 (LittleEndian.length_bytes _ _)]
    change push room (LuaValue.scalar (.number (UInt64.ofNat (LittleEndian.value _)))) rest = _
    rw [qword_value]
    rfl
  | string str => exact string_decodes border str (small str rfl)
  | lightuserdata address =>
    refine .of_push typeUserdata 0 _ (by decide) (by decide) ?_
    intro turns room rest _
    change (getPointer _ >>= fun p => push room (LuaValue.scalar (.lightuserdata p.1)) p.2) = _
    rw [getPointer, rbRead_append _ _ 8 387 (LittleEndian.length_bytes _ _)]
    change push room (LuaValue.scalar (.lightuserdata (UInt64.ofNat (LittleEndian.value _)))) rest = _
    rw [qword_value]
    rfl

def storeAll (value : Scalar → LuaValue) (keys : List Scalar) (entries : Entries) : Entries :=
  keys.foldl (fun entries key => store entries key (value key)) entries

theorem rawget_storeAll (value : Scalar → LuaValue) (keys : List Scalar) (entries : Entries)
    (key : Scalar) :
    rawget (storeAll value keys entries) key =
      if key ∈ keys then value key else rawget entries key := by
  induction keys generalizing entries with
  | nil => simp [storeAll]
  | cons first keys ih =>
    have step : storeAll value (first :: keys) entries =
        storeAll value keys (store entries first (value first)) := rfl
    rw [step, ih, rawget_store]
    by_cases later : key ∈ keys
    · simp [later]
    · by_cases here : key = first
      · simp [here]
      · simp [later, here]

theorem unpackArray_decodes (border : Entries → Nat) (turns room : Nat) (value : Scalar → LuaValue)
    (bytes : Nat → List UInt8) (slots : Nat → Nat) (indices : List Nat) (entries : Entries)
    (rest : List UInt8)
    (decodes : ∀ i ∈ indices,
      Decodes border (bytes i) (slots i) (value (.integer (Int64.ofNat i))))
    (enough : (indices.flatMap bytes).length ≤ turns) :
    unpackArray (unpackOne border turns room) indices entries (indices.flatMap bytes ++ rest) =
      within .stack room (most (indices.map slots))
        (storeAll value (indices.map fun i => .integer (Int64.ofNat i)) entries, rest) := by
  induction indices generalizing entries with
  | nil => rfl
  | cons i indices ih =>
    rw [List.flatMap_cons, List.length_append] at enough
    rw [List.flatMap_cons, List.append_assoc, unpackArray,
      decodes i (by simp) turns room _ (by omega)]
    exact within_bind (ih (rawseti entries i (value (.integer (Int64.ofNat i))))
      (fun other inside => decodes other (by simp [inside])) (by omega))

def hashKeys (skip : LuaValue → Bool) : Entries → List Scalar
  | [] => []
  | (.scalar key, _) :: pairs =>
      if skip (.scalar key) then hashKeys skip pairs else key :: hashKeys skip pairs
  | _ :: pairs => hashKeys skip pairs

theorem mem_hashKeys (skip : LuaValue → Bool) (pairs : Entries) (key : Scalar) :
    key ∈ hashKeys skip pairs ↔ ∃ pair ∈ pairs, pair.1 = .scalar key ∧ ¬skip (.scalar key) := by
  induction pairs with
  | nil => simp [hashKeys]
  | cons pair pairs ih =>
    obtain ⟨found, value⟩ := pair
    cases found with
    | scalar other =>
      rw [hashKeys]
      by_cases here : other = key
      · subst here
        split_ifs with skipped <;> simp [ih, skipped]
      · have different : key ≠ other := Ne.symm here
        split_ifs <;> simp [ih, here, different]
    | table | other => simp [hashKeys, ih]

theorem toKey_nonnil (key : Scalar) (canonical : toKey key = .ok key) :
    ¬(LuaValue.scalar key).isNil = true := by
  rintro isNil
  cases key <;> simp [LuaValue.isNil, toKey] at isNil canonical

-- The slots for the pairs of a table, with a value read behind its key, and for the last nil.
def hashSlots (slots : LuaValue → Nat) (skip : LuaValue → Bool) (pairs : Entries) : Nat :=
  most (pairs.map (fun pair => if skip pair.1 then 0 else max (slots pair.1) (1 + slots pair.2)) ++
    [1])

theorem hashSlots_cons (slots : LuaValue → Nat) (skip : LuaValue → Bool)
    (pair : LuaValue × LuaValue) (pairs : Entries) :
    hashSlots slots skip (pair :: pairs) =
      max (if skip pair.1 then 0 else max (slots pair.1) (1 + slots pair.2))
        (hashSlots slots skip pairs) :=
  rfl

theorem unpackHash_decodes (border : Entries → Nat) (turns limit room : Nat)
    (value : Scalar → LuaValue) (bytes : LuaValue → List UInt8) (slots : LuaValue → Nat)
    (skip : LuaValue → Bool) (pairs entries : Entries) (rest : List UInt8)
    (taken : ∀ v, 0 < slots v)
    (keys : ∀ pair ∈ pairs, ∃ key, pair.1 = .scalar key ∧ toKey key = .ok key ∧
      bytes pair.1 ≠ [] ∧ Decodes border (bytes pair.1) (slots pair.1) pair.1 ∧
      Decodes border (bytes pair.2) (slots pair.2) (value key))
    (enough : (pairs.flatMap fun pair => if skip pair.1 then [] else bytes pair.1 ++ bytes pair.2).length
      < turns) (bound : turns ≤ limit) :
    unpackHash (unpackOne border limit room) (unpackOne border limit (room - 1)) turns entries
      ((pairs.flatMap fun pair => if skip pair.1 then [] else bytes pair.1 ++ bytes pair.2) ++
        ([UInt8.ofNat typeNil] ++ rest)) =
      within .stack room (hashSlots slots skip pairs)
        (storeAll value (hashKeys skip pairs) entries, rest) := by
  induction pairs generalizing turns entries with
  | nil =>
    cases turns with
    | zero => omega
    | succ turns =>
      have last := scalar_decodes border .nil (by simp) limit room rest
        (by simp [encodeScalar]; omega)
      rw [List.flatMap_nil, List.nil_append, unpackHash]
      change (unpackOne border limit room (encodeScalar .nil ++ rest) >>= _) = _
      rw [last]
      exact within_map rfl
  | cons pair pairs ih =>
    obtain ⟨key, same, canonical, nonempty, first, second⟩ := keys pair (by simp)
    obtain ⟨found, old⟩ := pair
    simp only at same nonempty first second
    subst same
    have later := fun pair inside => keys pair (List.mem_cons_of_mem _ inside)
    rw [List.flatMap_cons, List.length_append] at enough
    rw [List.flatMap_cons, hashKeys, hashSlots_cons]
    by_cases skipped : skip (.scalar key) = true
    · simp only [skipped, if_true, List.nil_append, List.length_nil, Nat.zero_add, Nat.zero_max]
        at enough ⊢
      exact ih turns entries later enough bound
    · simp only [skipped, if_false, List.length_append, Bool.false_eq_true] at enough ⊢
      have some := List.length_pos_iff.mpr nonempty
      cases turns with
      | zero => omega
      | succ turns =>
        simp only [List.append_assoc] at ih ⊢
        rw [unpackHash, first limit room _ (by omega), max_assoc]
        refine within_bind ?_
        change (if (LuaValue.scalar key).isNil = true then _ else _) = _
        rw [if_neg (toKey_nonnil key canonical), second limit (room - 1) _ (by omega),
          within_sub (taken old)]
        refine within_bind ?_
        change ((rawset entries (.scalar key) (value key)).mapError Fault.error >>= _) = _
        rw [rawset, canonical]
        exact ih turns (store entries key (value key)) later (by omega) (by omega)

theorem unpackSize_integer (type : UInt8) (rb : ReadBlock) (number : type.toNat % 8 = typeNumber)
    (whole : type.toNat / 8 ≠ typeNumberReal) :
    unpackSize (type :: rb) (maxCookie - 1) =
      getInteger rb (type.toNat / 8) >>= fun p => pure (p.1.toInt32.toInt, p.2) := by
  have first : rbRead (type :: rb) 1 410 = .ok ([type], rb) := rbRead_append [type] rb 1 410 rfl
  rw [unpackSize, if_pos rfl, first]
  refine if_neg ?_
  rintro (wrong | real)
  · exact wrong number
  · exact whole real

theorem unpackSize_long (rawlen : Nat) (rest : List UInt8) (border : rawlen < 2 ^ 31) :
    unpackSize (encodeInteger (Int64.ofNat rawlen) ++ rest) (maxCookie - 1) =
      .ok ((rawlen : Int), rest) := by
  have cookie := integerForm_lt (Int64.ofNat rawlen)
  obtain ⟨type, same⟩ := combineType_parts typeNumber (integerForm (Int64.ofNat rawlen)).1
    (by decide) (cookie.trans (by decide))
  have size : (Int64.ofNat rawlen).toInt32.toInt = rawlen := by
    rw [Int64.toInt32_ofNat', Int32.toInt_ofNat_of_lt border]
  rw [encodeInteger, List.cons_append, unpackSize_integer _ _ type (by rw [same]; exact cookie.ne),
    same, getInteger_bytes]
  change Except.ok ((Int64.ofNat rawlen).toInt32.toInt, rest) = _
  rw [size]

def readEntries (value : Scalar → LuaValue) (rawlen : Nat) (entries : Entries) : Entries :=
  storeAll value (hashKeys (inArray rawlen) entries)
    (storeAll value ((List.range' 1 rawlen).map fun i => .integer (Int64.ofNat i)) [])

-- The slots that a table needs, where `slots` are the ones of its keys and values.
def tableSlots (slots : LuaValue → Nat) (rawlen : Nat) (entries : Entries) : Nat :=
  1 + max (most ((List.range' 1 rawlen).map fun i => slots (rawgeti entries i)))
    (hashSlots slots (inArray rawlen) entries)

theorem table_decodes (border : Entries → Nat) (rawlen : Nat) (entries : Entries)
    (value : Scalar → LuaValue) (bytes : LuaValue → List UInt8) (slots : LuaValue → Nat)
    (small : rawlen < 2 ^ 31) (taken : ∀ v, 0 < slots v)
    (array : ∀ i ∈ List.range' 1 rawlen,
      Decodes border (bytes (rawgeti entries i)) (slots (rawgeti entries i))
        (value (.integer (Int64.ofNat i))))
    (keys : ∀ pair ∈ entries, ∃ key, pair.1 = .scalar key ∧ toKey key = .ok key ∧
      bytes pair.1 ≠ [] ∧ Decodes border (bytes pair.1) (slots pair.1) pair.1 ∧
      Decodes border (bytes pair.2) (slots pair.2) (value key)) :
    Decodes border (encodeHead rawlen ++ encodeBody bytes rawlen entries)
      (tableSlots slots rawlen entries)
      (.table (border (readEntries value rawlen entries)) (readEntries value rawlen entries)) := by
  have body (turns room cookie : Nat) (rb rest : List UInt8)
      (size : unpackSize rb cookie = .ok ((rawlen : Int), encodeBody bytes rawlen entries ++ rest))
      (enough : (encodeBody bytes rawlen entries).length ≤ turns) :
      pushValue border (unpackOne border turns) turns room rb typeTable cookie =
        within .stack room (tableSlots slots rawlen entries)
          (.table (border (readEntries value rawlen entries)) (readEntries value rawlen entries),
            rest) := by
    simp only [encodeBody, List.length_append, List.length_singleton] at enough
    change unpackTable border _ turns room rb cookie = _
    rw [unpackTable, size, encodeBody, List.append_assoc, List.append_assoc]
    refine claim_bind ?_
    rw [Int.toNat_natCast,
      unpackArray_decodes border turns _ value _ (fun i => slots (rawgeti entries i)) _ _ _ array
        (by omega)]
    refine within_bind ?_
    change (unpackHash _ _ turns _ _ >>= _) = _
    rw [unpackHash_decodes border turns turns _ value bytes slots (inArray rawlen) entries _ rest
      taken keys (by omega) le_rfl]
    exact within_map rfl
  unfold encodeHead
  split_ifs with long
  · rw [List.cons_append]
    refine .of_push typeTable (maxCookie - 1) _ (by decide) (by decide) ?_
    intro turns room rest enough
    refine body turns room _ _ rest ?_ ?_
    · rw [List.append_assoc, unpackSize_long rawlen _ small]
    · rw [List.length_append] at enough
      omega
  · have cookie : rawlen < maxCookie - 1 := not_le.mp long
    rw [List.singleton_append]
    refine .of_push typeTable rawlen _ (by decide) (cookie.trans (by decide)) ?_
    intro turns room rest enough
    refine body turns room _ _ rest ?_ enough
    rw [unpackSize, if_neg cookie.ne]
    rfl

theorem encodeScalar_nonempty (s : Scalar) : encodeScalar s ≠ [] := by
  cases s with
  | string str =>
    simp only [encodeScalar, encodeString]
    split_ifs <;> simp
  | nil | boolean | integer | number | lightuserdata => simp [encodeScalar, encodeInteger]

theorem inArray_mem (rawlen : Nat) (key : Scalar) (inside : inArray rawlen (.scalar key) = true) :
    key ∈ (List.range' 1 rawlen).map fun i => Scalar.integer (Int64.ofNat i) := by
  cases key with
  | integer x =>
    simp only [inArray, decide_eq_true_eq] at inside
    have nat : (x.toUInt64.toNat : Int) = x.toInt := Words.toNat_of_nonneg x (by omega)
    refine List.mem_map.mpr ⟨x.toUInt64.toNat, ?_, ?_⟩
    · rw [List.mem_range'_1]
      omega
    · rw [Words.ofNat_toNat]
  | nil | boolean | number | string | lightuserdata => simp [inArray] at inside

theorem rawget_readEntries (value : Scalar → LuaValue) (rawlen : Nat) (entries : Entries)
    (key : Scalar) :
    rawget (readEntries value rawlen entries) key = value key ∨
      (rawget (readEntries value rawlen entries) key = nil ∧ rawget entries key = nil) := by
  rw [readEntries, rawget_storeAll, rawget_storeAll]
  by_cases later : key ∈ hashKeys (inArray rawlen) entries
  · exact .inl (if_pos later)
  · rw [if_neg later]
    split_ifs with array
    · exact .inl rfl
    · refine .inr ⟨rfl, ?_⟩
      rcases rawget_cases entries key with ⟨none, _⟩ | ⟨entry, inside, same, _⟩
      · exact none
      · exfalso
        rw [mem_hashKeys] at later
        have skipped : inArray rawlen (.scalar key) = true := by
          by_contra kept
          exact later ⟨entry, inside, same, kept⟩
        exact array (inArray_mem rawlen key skipped)

theorem storeAll_keys (value : Scalar → LuaValue) (keys : List Scalar) (entries : Entries)
    (plain : ∀ entry ∈ entries, ∃ key, entry.1 = .scalar key) :
    ∀ entry ∈ storeAll value keys entries, ∃ key, entry.1 = .scalar key := by
  induction keys generalizing entries with
  | nil => exact plain
  | cons first keys ih =>
    refine ih (store entries first (value first)) ?_
    intro entry inside
    have others : ∀ entry ∈ entries.filter (fun entry => !entry.1.isScalar first),
        ∃ key, entry.1 = .scalar key := fun entry inside => plain entry (List.mem_filter.mp inside).1
    unfold store at inside
    simp only at inside
    split_ifs at inside
    · exact others entry inside
    · rcases List.mem_append.mp inside with old | new
      · exact others entry old
      · exact ⟨first, by rw [List.mem_singleton.mp new]⟩

theorem rawget_distinct (entries : Entries) (distinct : (entries.map (·.1)).Nodup)
    (entry : LuaValue × LuaValue) (inside : entry ∈ entries) (key : Scalar)
    (same : entry.1 = .scalar key) : rawget entries key = entry.2 := by
  rcases rawget_cases entries key with ⟨_, missing⟩ | ⟨other, inside', same', found⟩
  · exact absurd same (missing entry inside)
  · have one := List.inj_on_of_nodup_map distinct inside' inside (same'.trans same.symm)
    rw [found, one]

def unpackSlots : Nat → LuaValue → Nat
  | levels + 1, .table rawlen entries => tableSlots (unpackSlots levels) rawlen entries
  | _, _ => 1

theorem unpackSlots_pos (levels : Nat) (v : LuaValue) : 0 < unpackSlots levels v := by
  unfold unpackSlots
  split
  · exact Nat.lt_of_lt_of_le Nat.one_pos (Nat.le_add_right ..)
  · exact Nat.one_pos

theorem encode_decodes (border : Entries → Nat) (levels : Nat) (v : LuaValue)
    (packable : Packable levels v) :
    ∃ v', Same v v' ∧
      Decodes border (encode (levels + 1) v) (unpackSlots (levels + 1) v) v' := by
  induction packable with
  | scalar levels s small => exact ⟨.scalar s, .scalar s, scalar_decodes border s small⟩
  | empty levels =>
    refine ⟨.table (border []) [], .table _ _ _ _ (by simp) (by simp) fun _ => .scalar _, ?_⟩
    exact table_decodes border 0 [] (fun _ => nil) (encode levels) (unpackSlots levels) (by decide)
      (unpackSlots_pos levels) (by simp) (by simp)
  | table levels rawlen entries small keys distinct values ih =>
    have element (key : Scalar) : ∃ v', Same (rawget entries key) v' ∧
        Decodes border (encode (levels + 1) (rawget entries key))
          (unpackSlots (levels + 1) (rawget entries key)) v' := by
      rcases rawget_cases entries key with ⟨none, _⟩ | ⟨entry, inside, _, found⟩
      · rw [none]
        exact ⟨nil, .scalar _, scalar_decodes border .nil (by simp)⟩
      · rw [found]
        exact ih entry inside
    choose value same decodes using element
    refine ⟨.table _ _, .table _ _ _ _ ?_ ?_ ?_, table_decodes border rawlen entries value
      (encode (levels + 1)) (unpackSlots (levels + 1)) small (unpackSlots_pos _)
      (fun i _ => decodes _) ?_⟩
    · intro entry inside
      obtain ⟨key, here, _⟩ := keys entry inside
      exact ⟨key, here⟩
    · exact storeAll_keys value _ _ (storeAll_keys value _ _ (by simp))
    · intro key
      rcases rawget_readEntries value rawlen entries key with read | ⟨none, none'⟩
      · rw [read]
        exact same key
      · rw [none, none']
        exact .scalar _
    · intro entry inside
      obtain ⟨key, here, canonical, short⟩ := keys entry inside
      have stored := decodes key
      rw [rawget_distinct entries distinct entry inside key here] at stored
      refine ⟨key, here, canonical, ?_, ?_, stored⟩
      · rw [here]
        exact encodeScalar_nonempty key
      · rw [here]
        exact scalar_decodes border key short

theorem Decodes.nonempty {border : Entries → Nat} {bytes : List UInt8} {slots : Nat}
    {value : LuaValue} (decodes : Decodes border bytes slots value) : bytes ≠ [] := by
  intro none
  have read := decodes 0 slots [] (by simp [none])
  rw [within_of_le le_rfl] at read
  simp [unpackOne, invalidStream] at read

theorem unpackAll_cons (border : Entries → Nat) (source : Source) (turns i : Nat) (t : UInt8)
    (rb : ReadBlock) :
    unpackAll border source (turns + 1) i (t :: rb) =
      unpackOne border (turns + 1) (granted source i - i) (t :: rb) >>= fun p =>
        unpackAll border source turns (i + 1) p.2 >>= fun values => pure (p.1 :: values) := by
  have read : rbRead (t :: rb) 1 497 = .ok ([t], rb) := rbRead_append [t] rb 1 497 rfl
  rw [unpackOne, read]
  rfl

-- The values get the slots they need, from the turn `i` of the loop on.
def unpackFits (source : Source) : Nat → List LuaValue → Prop
  | _, [] => True
  | i, v :: values =>
      i + unpackSlots (maxDepth + 1) v ≤ granted source i ∧ unpackFits source (i + 1) values

instance decidableUnpackFits (source : Source) :
    (i : Nat) → (values : List LuaValue) → Decidable (unpackFits source i values)
  | _, [] => inferInstanceAs (Decidable True)
  | i, _ :: values =>
      have := decidableUnpackFits source (i + 1) values
      inferInstanceAs (Decidable (_ ∧ _))

theorem unpackAll_decodes (border : Entries → Nat) (source : Source) (values : List LuaValue)
    (packable : ∀ v ∈ values, Packable maxDepth v) :
    ∃ values', List.Forall₂ Same values values' ∧
      ∀ turns i, (encodeAll values).length ≤ turns →
        unpackAll border source turns i (encodeAll values) =
          if unpackFits source i values then .ok values' else .error .stack := by
  induction values with
  | nil =>
    refine ⟨[], .nil, ?_⟩
    intro turns i _
    cases turns <;> rfl
  | cons v values ih =>
    obtain ⟨v', same, decodes⟩ := encode_decodes border maxDepth v (packable v (by simp))
    obtain ⟨values', sames, rest⟩ := ih fun other inside => packable other (by simp [inside])
    refine ⟨v' :: values', .cons same sames, ?_⟩
    intro turns i enough
    have split : encodeAll (v :: values) = encode (maxDepth + 1) v ++ encodeAll values :=
      List.flatMap_cons
    obtain ⟨t, body, bytes⟩ := List.exists_cons_of_ne_nil decodes.nonempty
    rw [split, List.length_append] at enough
    have some := List.length_pos_iff.mpr decodes.nonempty
    have taken := unpackSlots_pos (maxDepth + 1) v
    cases turns with
    | zero => omega
    | succ turns =>
      have first := decodes (turns + 1) (granted source i - i) (encodeAll values) (by omega)
      rw [bytes, List.cons_append] at first
      rw [split, bytes, List.cons_append, unpackAll_cons, first]
      by_cases room : i + unpackSlots (maxDepth + 1) v ≤ granted source i
      · rw [within_of_le (by omega)]
        change (unpackAll border source turns (i + 1) (encodeAll values) >>= fun values =>
          pure (v' :: values)) = _
        rw [rest turns (i + 1) (by omega)]
        by_cases fits : unpackFits source (i + 1) values
        · rw [if_pos fits, if_pos (show unpackFits source i (v :: values) from ⟨room, fits⟩)]
          rfl
        · rw [if_neg fits, if_neg fun both : unpackFits source i (v :: values) => fits both.2]
          rfl
      · rw [within_of_lt (by omega),
          if_neg fun both : unpackFits source i (v :: values) => room both.1]
        rfl

def integerSize (v : Int64) : Nat := 1 + (integerForm v).2

def stringSize (length : Nat) : Nat :=
  if length < maxCookie then 1 + length
  else if length < 0x10000 then 3 + length
  else 5 + length

def scalarSize : Scalar → Nat
  | .nil | .boolean _ => 1
  | .integer v => integerSize v
  | .number _ | .lightuserdata _ => 9
  | .string str => stringSize str.length

def packedSize : Nat → LuaValue → Nat
  | 0, _ => 0
  | levels + 1, value =>
      match value with
      | .scalar s => scalarSize s
      | .table rawlen entries =>
          (if rawlen ≥ maxCookie - 1 then 1 + integerSize (Int64.ofNat rawlen) else 1) +
            (((List.range' 1 rawlen).map fun i => packedSize levels (rawgeti entries i)).sum +
            ((entries.map fun entry => if inArray rawlen entry.1 then 0
              else packedSize levels entry.1 + packedSize levels entry.2).sum + 1))
      | .other _ => 0

theorem length_encodeScalar (s : Scalar) : (encodeScalar s).length = scalarSize s := by
  cases s with
  | string str =>
    simp only [encodeScalar, encodeString, scalarSize, stringSize]
    split_ifs <;> simp <;> omega
  | nil | boolean | integer | number | lightuserdata =>
    simp [encodeScalar, encodeInteger, scalarSize, integerSize] <;> omega

theorem length_encode (levels : Nat) (v : LuaValue) :
    (encode levels v).length = packedSize levels v := by
  induction levels generalizing v with
  | zero => rfl
  | succ levels ih =>
    cases v with
    | scalar s => exact length_encodeScalar s
    | other type => rfl
    | table rawlen entries =>
      have head : (encodeHead rawlen).length =
          if rawlen ≥ maxCookie - 1 then 1 + integerSize (Int64.ofNat rawlen) else 1 := by
        unfold encodeHead
        split_ifs
        · simp [encodeInteger, integerSize]
          omega
        · rfl
      simp only [encode, packedSize, encodeBody, List.length_append, List.length_flatMap, head, ih,
        List.length_singleton, apply_ite List.length, List.length_nil]

theorem unpack_pack (border : Entries → Nat) (source : Source) (values : List LuaValue)
    (packable : ∀ v ∈ values, Packable maxDepth v) :
    (∃ buffer values', luaseriPack values = .ok buffer ∧
        luaseriUnpack border source buffer = .ok values' ∧ List.Forall₂ Same values values') ↔
      (values.map (packedSize (maxDepth + 1))).sum < 2 ^ 31 ∧
      (∀ v ∈ values, packSlots (maxDepth + 1) v ≤ minStack) ∧ unpackFits source 0 values := by
  have size : (encodeAll values).length = (values.map (packedSize (maxDepth + 1))).sum := by
    simp only [encodeAll, List.length_flatMap, length_encode]
  obtain ⟨values', same, read⟩ := unpackAll_decodes border source values packable
  have unpacked : luaseriUnpack border source (encodeAll values) =
      if unpackFits source 0 values then .ok values' else .error .stack := read _ 0 le_rfl
  rw [← size]
  constructor
  · rintro ⟨buffer, _, done, back, -⟩
    have room := luaseriPack_fits values packable buffer done
    obtain ⟨packed, failed⟩ := luaseriPack_eq values packable room
    by_cases small : (encodeAll values).length < 2 ^ 31
    · cases (packed small).symm.trans done
      refine ⟨small, room, ?_⟩
      by_contra full
      rw [unpacked, if_neg full] at back
      contradiction
    · rw [failed (not_lt.mp small)] at done
      contradiction
  · rintro ⟨small, room, fits⟩
    rw [if_pos fits] at unpacked
    exact ⟨_, values', (luaseriPack_eq values packable room).1 small, unpacked, same⟩

def nested : Nat → LuaValue
  | 0 => .table 0 []
  | levels + 1 => .table 0 [(.scalar (.string [0x61]), nested levels)]

-- Ten tables, each in the one before it, are packed, and eleven are not.
example : packSlots (maxDepth + 1) (nested 9) ≤ minStack ∧
    ¬packSlots (maxDepth + 1) (nested 10) ≤ minStack := by
  decide +kernel

def sample : LuaValue :=
  .table 1
    [(.scalar (.integer 1), .scalar (.string [0x61])),
     (.scalar (.number 0x3fe0000000000000), .table 0 [])]

theorem sample_unpacked :
    ∃ buffer values', luaseriPack [sample, nil] = .ok buffer ∧
      luaseriUnpack (fun _ => 0) .pointer buffer = .ok values' ∧
      List.Forall₂ Same [sample, nil] values' := by
  refine (unpack_pack (fun _ => 0) .pointer [sample, nil] ?_).mpr (by decide)
  have inner : ∀ entry ∈ [((.scalar (.integer 1) : LuaValue), (.scalar (.string [0x61]) : LuaValue)),
      (.scalar (.number 0x3fe0000000000000), .table 0 [])], Packable 31 entry.2 := by
    simp only [List.mem_cons, List.not_mem_nil, or_false, forall_eq_or_imp, forall_eq]
    exact ⟨.scalar _ _ (by simp), .empty _⟩
  intro v inside
  simp only [List.mem_cons, List.not_mem_nil, or_false] at inside
  rcases inside with rfl | rfl
  · refine .table 31 1 _ (by decide) ?_ (by simp) inner
    simp only [List.mem_cons, List.not_mem_nil, or_false, forall_eq_or_imp, forall_eq]
    exact ⟨⟨_, rfl, rfl, by simp⟩, ⟨_, rfl, by rfl, by simp⟩⟩
  · exact .scalar _ _ (by simp)

theorem string_overflows (str : List UInt8) (small : str.length < 2 ^ 31)
    (long : 2 ^ 31 ≤ 5 + str.length) :
    Packable maxDepth (.scalar (.string str)) ∧
      luaseriPack [.scalar (.string str)] = .error .overflow ∧
      ¬∃ buffer values', luaseriPack [.scalar (.string str)] = .ok buffer ∧
        luaseriUnpack (fun _ => 0) .pointer buffer = .ok values' ∧
        List.Forall₂ Same [.scalar (.string str)] values' := by
  have packable : Packable maxDepth (.scalar (.string str)) := by
    refine .scalar _ _ ?_
    rintro other ⟨⟩
    exact small
  have size : (encode (maxDepth + 1) (.scalar (.string str))).length = stringSize str.length :=
    length_encodeScalar (.string str)
  have failed : luaseriPack [.scalar (.string str)] = .error .overflow := by
    refine (luaseriPack_eq _ (by simpa using packable) (by simp [packSlots])).2 ?_
    rw [encodeAll, List.flatMap_singleton, size, stringSize, if_neg (by unfold maxCookie; omega),
      if_neg (by omega)]
    exact long
  refine ⟨packable, failed, ?_⟩
  rintro ⟨buffer, _, done, _⟩
  rw [failed] at done
  contradiction

def longest : List UInt8 := List.replicate 2147483647 0

theorem longest_overflows :
    Packable maxDepth (.scalar (.string longest)) ∧
      luaseriPack [.scalar (.string longest)] = .error .overflow ∧
      ¬∃ buffer values', luaseriPack [.scalar (.string longest)] = .ok buffer ∧
        luaseriUnpack (fun _ => 0) .pointer buffer = .ok values' ∧
        List.Forall₂ Same [.scalar (.string longest)] values' := by
  have length : longest.length = 2147483647 := List.length_replicate
  exact string_overflows longest (by rw [length]; decide) (by rw [length]; decide)

end Pskynet.Seri
