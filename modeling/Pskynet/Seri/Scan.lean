import Pskynet.Seri.Encoding
import Pskynet.Seri.Follows

set_option autoImplicit false

namespace Pskynet.Seri

open Lua Slots

inductive Kind where
  | nil
  | nan
  | plain
  deriving DecidableEq

inductive Scan where
  | item (kind : Kind) (rest : ReadBlock)
  | stopped
  | improper
  deriving DecidableEq

def Scan.andThen (scan : Scan) (next : Kind → ReadBlock → Scan) : Scan :=
  match scan with
  | .item kind rest => next kind rest
  | .stopped => .stopped
  | .improper => .improper

def scanPush (room : Nat) (kind : Kind) (rb : ReadBlock) : Scan :=
  if room = 0 then .improper else .item kind rb

def skip (size : Nat) (rb : ReadBlock) : Scan :=
  if rb.length < size then .stopped else .item .plain (rb.drop size)

def integerWidth (cookie : Nat) : Option Nat :=
  if cookie = typeNumberZero then some 0
  else if cookie = typeNumberByte then some 1
  else if cookie = typeNumberWord then some 2
  else if cookie = typeNumberDword then some 4
  else if cookie = typeNumberQword then some 8
  else none

def scanInteger (cookie : Nat) (rb : ReadBlock) : Scan :=
  match integerWidth cookie with
  | none => .stopped
  | some size => skip size rb

def scanReal (rb : ReadBlock) : Scan :=
  if rb.length < 8 then .stopped
  else
    .item (if isNaN (UInt64.ofNat (LittleEndian.value (rb.take 8))) then .nan else .plain)
      (rb.drop 8)

-- A string behind a length of `width` bytes.
def scanLong (width : Nat) (rb : ReadBlock) : Scan :=
  if rb.length < width then .stopped
  else
    let size := LittleEndian.value (rb.take width)
    if 2 ^ 31 ≤ size then .improper else skip size (rb.drop width)

def scanArray (scan : ReadBlock → Scan) : Nat → ReadBlock → Scan
  | 0, rb => .item .plain rb
  | count + 1, rb => (scan rb).andThen fun _ rest => scanArray scan count rest

def scanHash (scanKey scanElement : ReadBlock → Scan) : Nat → ReadBlock → Scan
  | 0, _ => .stopped
  | turns + 1, rb =>
      (scanKey rb).andThen fun kind rest =>
        if kind = .nil then .item .plain rest
        else
          (scanElement rest).andThen fun _ rest =>
            if kind = .nan then .improper else scanHash scanKey scanElement turns rest

-- The table takes one of the free slots while its elements and keys are read, and a key one more
-- while its value is.
def scanTable (scan : Nat → ReadBlock → Scan) (turns room arraySize : Nat) (rb : ReadBlock) : Scan :=
  match unpackSize rb arraySize with
  | .ok (arraySize, rest) =>
      if room = 0 then .improper
      else
        (scanArray (scan (room - 1)) arraySize.toNat rest).andThen fun _ rest =>
          scanHash (scan (room - 1)) (scan (room - 2)) turns rest
  | .error _ => .stopped

def scanValue (scan : Nat → ReadBlock → Scan) (turns room : Nat) (rb : ReadBlock)
    (type cookie : Nat) : Scan :=
  if type = typeNil then scanPush room .nil rb
  else if type = typeBoolean then scanPush room .plain rb
  else if type = typeNumber then
    (if cookie = typeNumberReal then scanReal rb else scanInteger cookie rb).andThen (scanPush room)
  else if type = typeUserdata then (skip 8 rb).andThen (scanPush room)
  else if type = typeShortString then (skip cookie rb).andThen (scanPush room)
  else if type = typeLongString then
    if cookie = 2 then (scanLong 2 rb).andThen (scanPush room)
    else if cookie ≠ 4 then .stopped
    else (scanLong 4 rb).andThen (scanPush room)
  else if type = typeTable then scanTable scan turns room cookie rb
  else .stopped

def scanOne : Nat → Nat → ReadBlock → Scan
  | _, _, [] => .stopped
  | 0, _, _ => .stopped
  | turns + 1, room, t :: rest =>
      scanValue (scanOne turns) turns room rest (t.toNat % 8) (t.toNat / 8)

def ProperStream (source : Source) : Nat → Nat → ReadBlock → Bool
  | 0, _, _ => true
  | _, _, [] => true
  | turns + 1, i, t :: rest =>
      match scanValue (scanOne turns) turns (granted source i - i) rest (t.toNat % 8)
        (t.toNat / 8) with
      | .item _ rest => ProperStream source turns (i + 1) rest
      | .stopped => true
      | .improper => false

def kindOf : LuaValue → Kind
  | .scalar .nil => .nil
  | .scalar (.number bits) => if isNaN bits then .nan else .plain
  | _ => .plain

def nanIndex : Fault := .error "table index is NaN"

def Improper (fault : Fault) : Prop := fault = blockTooBig ∨ fault = nanIndex ∨ fault = .stack

def Scanned {α : Type} (kind : α → Kind) (result : Except Fault (α × ReadBlock)) : Scan → Prop
  | .item found rest => ∃ value, result = .ok (value, rest) ∧ kind value = found
  | .stopped => ∃ rb line, result = invalidStream rb line
  | .improper => ∃ fault, result = .error fault ∧ Improper fault

variable {α β : Type}

theorem Scanned.bind {kind : α → Kind} {kind' : β → Kind} {result : Except Fault (α × ReadBlock)}
    {scan : Scan} {next : α × ReadBlock → Except Fault (β × ReadBlock)}
    {after : Kind → ReadBlock → Scan} (first : Scanned kind result scan)
    (second : ∀ value rest, result = .ok (value, rest) →
      Scanned kind' (next (value, rest)) (after (kind value) rest)) :
    Scanned kind' (result >>= next) (scan.andThen after) := by
  cases scan with
  | item found rest =>
    obtain ⟨value, rfl, rfl⟩ := first
    exact second value rest rfl
  | stopped =>
    obtain ⟨rb, line, rfl⟩ := first
    exact ⟨rb, line, rfl⟩
  | improper =>
    obtain ⟨fault, rfl, which⟩ := first
    exact ⟨fault, rfl, which⟩

theorem Scanned.map {kind : α → Kind} {kind' : β → Kind} {result : Except Fault (α × ReadBlock)}
    {scan : Scan} {next : α × ReadBlock → Except Fault (β × ReadBlock)}
    (first : Scanned kind result scan)
    (makes : ∀ value rest, ∃ made, next (value, rest) = .ok (made, rest) ∧ kind' made = kind value) :
    Scanned kind' (result >>= next) scan := by
  cases scan with
  | item found rest =>
    obtain ⟨value, rfl, rfl⟩ := first
    exact makes value rest
  | stopped =>
    obtain ⟨rb, line, rfl⟩ := first
    exact ⟨rb, line, rfl⟩
  | improper =>
    obtain ⟨fault, rfl, which⟩ := first
    exact ⟨fault, rfl, which⟩

def noKind {α : Type} (_ : α) : Kind := .plain

theorem rbRead_scanned (rb : ReadBlock) (size line : Nat) :
    Scanned noKind (rbRead rb size line) (skip size rb) := by
  unfold rbRead skip
  split_ifs with short
  · exact ⟨rb, line, rfl⟩
  · exact ⟨rb.take size, rfl, rfl⟩

theorem getInteger_scanned (rb : ReadBlock) (cookie : Nat) :
    Scanned noKind (getInteger rb cookie) (scanInteger cookie rb) := by
  unfold getInteger scanInteger integerWidth
  split_ifs with zero byte word dword qword
  · exact ⟨0, rfl, rfl⟩
  · exact (rbRead_scanned rb 1 338).map fun _ _ => ⟨_, rfl, rfl⟩
  · exact (rbRead_scanned rb 2 346).map fun _ _ => ⟨_, rfl, rfl⟩
  · exact (rbRead_scanned rb 4 354).map fun _ _ => ⟨_, rfl, rfl⟩
  · exact (rbRead_scanned rb 8 362).map fun _ _ => ⟨_, rfl, rfl⟩
  · exact ⟨rb, 367, rfl⟩

theorem push_scanned (room : Nat) (value : LuaValue) (rb : ReadBlock) :
    Scanned kindOf (push room value rb) (scanPush room (kindOf value) rb) := by
  unfold push scanPush
  by_cases full : room = 0
  · rw [if_pos full, within_of_lt (by omega)]
    exact ⟨.stack, rfl, .inr (.inr rfl)⟩
  · rw [if_neg full, within_of_le (by omega)]
    exact ⟨value, rfl, rfl⟩

theorem getBuffer_scanned (room : Nat) (rb : ReadBlock) (size : Nat) (small : size < 2 ^ 31) :
    Scanned kindOf (getBuffer room rb size) ((skip size rb).andThen (scanPush room)) := by
  unfold getBuffer
  rw [if_neg (by omega)]
  exact (rbRead_scanned rb size 397).bind fun _ rest _ => push_scanned room _ rest

def realKind (bits : UInt64) : Kind := if isNaN bits then .nan else .plain

theorem getReal_scanned (rb : ReadBlock) : Scanned realKind (getReal rb) (scanReal rb) := by
  unfold getReal rbRead scanReal
  by_cases short : rb.length < 8
  · rw [if_pos short, if_pos short]
    exact ⟨rb, 377, rfl⟩
  · rw [if_neg short, if_neg short]
    exact ⟨_, rfl, rfl⟩

theorem getPointer_scanned (rb : ReadBlock) : Scanned noKind (getPointer rb) (skip 8 rb) :=
  (rbRead_scanned rb 8 387).map fun _ _ => ⟨_, rfl, rfl⟩

theorem toCInt_negative (n : Nat) (top : 2 ^ 31 ≤ n) (bound : n < 2 ^ 32) : toCInt n < 0 := by
  unfold toCInt
  have size : Int32.size = 2 ^ 32 := rfl
  rw [Int32.toInt_ofNat', Int.bmod_eq_emod, size]
  split_ifs <;> omega

theorem long_scanned (room : Nat) (rb : ReadBlock) (width line : Nat) (short : width ≤ 4) :
    Scanned kindOf (rbRead rb width line >>= fun found =>
      getBuffer room found.2 (toCInt (LittleEndian.value found.1)))
      ((scanLong width rb).andThen (scanPush room)) := by
  unfold rbRead scanLong
  by_cases few : rb.length < width
  · rw [if_pos few, if_pos few]
    exact ⟨rb, line, rfl⟩
  · rw [if_neg few, if_neg few]
    have bound : LittleEndian.value (rb.take width) < 2 ^ 32 := by
      have below := LittleEndian.value_lt (rb.take width)
      have most : 256 ^ (rb.take width).length ≤ 256 ^ 4 :=
        Nat.pow_le_pow_right (by decide) ((List.length_take_le _ _).trans short)
      omega
    show Scanned kindOf
      (getBuffer room (rb.drop width) (toCInt (LittleEndian.value (rb.take width)))) _
    simp only
    by_cases top : 2 ^ 31 ≤ LittleEndian.value (rb.take width)
    · rw [if_pos top]
      unfold getBuffer
      rw [if_pos (toCInt_negative _ top bound)]
      exact ⟨_, rfl, .inl rfl⟩
    · rw [if_neg top, toCInt_eq _ (by omega)]
      exact getBuffer_scanned room _ _ (by omega)

theorem short_scanned (room : Nat) (rb : ReadBlock) :
    Scanned kindOf (rbRead rb 2 462 >>= fun found =>
      getBuffer room found.2 (LittleEndian.value found.1))
      ((scanLong 2 rb).andThen (scanPush room)) := by
  have long := long_scanned room rb 2 462 (by decide)
  have same (found : List UInt8 × ReadBlock) (read : rbRead rb 2 462 = .ok found) :
      toCInt (LittleEndian.value found.1) = LittleEndian.value found.1 := by
    unfold rbRead at read
    by_cases few : rb.length < 2
    · rw [if_pos few] at read
      cases read
    · rw [if_neg few] at read
      obtain rfl := Except.ok.inj read
      have below := LittleEndian.value_lt (rb.take 2)
      have two : (rb.take 2).length = 2 := by
        rw [List.length_take]
        omega
      rw [two] at below
      exact toCInt_eq _ (below.trans (by decide))
  cases read : rbRead rb 2 462 with
  | error fault =>
    rw [read] at long
    exact long
  | ok found =>
    rw [read] at long
    have long : Scanned kindOf (getBuffer room found.2 (toCInt (LittleEndian.value found.1)))
      ((scanLong 2 rb).andThen (scanPush room)) := long
    rw [same found read] at long
    exact long

def Regular (result : Except Fault (α × ReadBlock)) : Prop :=
  (∃ value rest, result = .ok (value, rest)) ∨ ∃ rb line, result = invalidStream rb line

theorem Regular.bind {result : Except Fault (α × ReadBlock)}
    {next : α × ReadBlock → Except Fault (β × ReadBlock)} (first : Regular result)
    (second : ∀ value rest, Regular (next (value, rest))) : Regular (result >>= next) := by
  rcases first with ⟨value, rest, rfl⟩ | ⟨rb, line, rfl⟩
  · exact second value rest
  · exact .inr ⟨rb, line, rfl⟩

theorem rbRead_regular (rb : ReadBlock) (size line : Nat) : Regular (rbRead rb size line) := by
  unfold rbRead
  split_ifs
  · exact .inr ⟨rb, line, rfl⟩
  · exact .inl ⟨_, _, rfl⟩

theorem getInteger_regular (rb : ReadBlock) (cookie : Nat) : Regular (getInteger rb cookie) := by
  unfold getInteger
  split_ifs
  · exact .inl ⟨_, _, rfl⟩
  · exact (rbRead_regular rb 1 338).bind fun _ _ => .inl ⟨_, _, rfl⟩
  · exact (rbRead_regular rb 2 346).bind fun _ _ => .inl ⟨_, _, rfl⟩
  · exact (rbRead_regular rb 4 354).bind fun _ _ => .inl ⟨_, _, rfl⟩
  · exact (rbRead_regular rb 8 362).bind fun _ _ => .inl ⟨_, _, rfl⟩
  · exact .inr ⟨rb, 367, rfl⟩

theorem unpackSize_regular (rb : ReadBlock) (arraySize : Nat) :
    Regular (unpackSize rb arraySize) := by
  unfold unpackSize
  split_ifs with long
  · refine (rbRead_regular rb 1 410).bind fun t rest => ?_
    show Regular (if (t.getD 0 0).toNat % 8 ≠ typeNumber ∨
      (t.getD 0 0).toNat / 8 = typeNumberReal then _ else _)
    split_ifs with other
    · exact .inr ⟨rest, 415, rfl⟩
    · exact (getInteger_regular rest _).bind fun _ _ => .inl ⟨_, _, rfl⟩
  · exact .inl ⟨_, _, rfl⟩

section

variable {elements : Nat → ReadBlock → Except Fault (LuaValue × ReadBlock)}
  {scan : Nat → ReadBlock → Scan}
  (scanned : ∀ room rb, Scanned kindOf (elements room rb) (scan room rb))
include scanned

theorem unpackArray_scanned (room : Nat) (indices : List Nat) (entries : Entries)
    (rb : ReadBlock) :
    Scanned noKind (unpackArray (elements room) indices entries rb)
      (scanArray (scan room) indices.length rb) := by
  induction indices generalizing entries rb with
  | nil => exact ⟨entries, rfl, rfl⟩
  | cons i rest ih => exact (scanned room rb).bind fun value rest _ => ih _ rest

-- A key that is not nil is taken, unless it is a NaN.
omit scanned in
theorem rawset_kind (entries : Entries) (key value : LuaValue) (present : ¬key.isNil = true) :
    if kindOf key = .nan then rawset entries key value = .error "table index is NaN"
    else ∃ stored, rawset entries key value = .ok stored := by
  cases key with
  | scalar key =>
    cases key with
    | nil => exact absurd rfl present
    | number bits =>
      unfold kindOf rawset toKey
      by_cases nan : isNaN bits = true
      · simp [nan, Except.map]
      · simp only [nan]
        rw [if_neg (by decide)]
        cases numisinteger bits <;> exact ⟨_, rfl⟩
    | boolean | integer | string | lightuserdata =>
      rw [if_neg (by simp [kindOf])]
      exact ⟨_, rfl⟩
  | table | other =>
    rw [if_neg (by simp [kindOf])]
    exact ⟨_, rfl⟩

omit scanned in
theorem kindOf_nil (value : LuaValue) : kindOf value = .nil ↔ value.isNil = true := by
  rw [isNil_iff]
  unfold kindOf nil
  split
  · simp
  · split_ifs <;> simp
  · next other _ => 
    constructor
    · intro is
      cases is
    · intro is
      exact absurd is other

theorem unpackHash_scanned (room turns : Nat) (entries : Entries) (rb : ReadBlock) :
    Scanned noKind (unpackHash (elements room) (elements (room - 1)) turns entries rb)
      (scanHash (scan room) (scan (room - 1)) turns rb) := by
  induction turns generalizing entries rb with
  | zero => exact ⟨rb, 497, rfl⟩
  | succ turns ih =>
    refine (scanned room rb).bind fun key rest _ => ?_
    by_cases none_ : key.isNil = true
    · rw [if_pos ((kindOf_nil key).mpr none_)]
      show Scanned noKind (if key.isNil = true then _ else _) _
      rw [if_pos none_]
      exact ⟨entries, rfl, rfl⟩
    · rw [if_neg fun is => none_ ((kindOf_nil key).mp is)]
      show Scanned noKind (if key.isNil = true then _ else _) _
      rw [if_neg none_]
      refine (scanned (room - 1) rest).bind fun value rest' _ => ?_
      have kept := rawset_kind entries key value none_
      show Scanned noKind ((rawset entries key value).mapError Fault.error >>= fun entries =>
        unpackHash (elements room) (elements (room - 1)) turns entries rest') _
      by_cases nan : kindOf key = .nan
      · rw [if_pos nan] at kept ⊢
        rw [kept]
        exact ⟨nanIndex, rfl, .inr (.inl rfl)⟩
      · rw [if_neg nan] at kept ⊢
        obtain ⟨stored, kept⟩ := kept
        rw [kept]
        exact ih stored rest'

theorem unpackTable_scanned (border : Entries → Nat) (turns room : Nat) (rb : ReadBlock)
    (arraySize : Nat) :
    Scanned kindOf (unpackTable border elements turns room rb arraySize)
      (scanTable scan turns room arraySize rb) := by
  unfold unpackTable scanTable
  rcases unpackSize_regular rb arraySize with ⟨size, rest, sized⟩ | ⟨rb', line, sized⟩
  · rw [sized]
    show Scanned kindOf (claim .stack room 1 >>= _) (if room = 0 then _ else _)
    by_cases full : room = 0
    · rw [if_pos full, claim, within_of_lt (by omega)]
      exact ⟨.stack, rfl, .inr (.inr rfl)⟩
    · rw [if_neg full, claim, within_of_le (by omega)]
      have filled := unpackArray_scanned scanned (room - 1) (List.range' 1 size.toNat) [] rest
      rw [List.length_range'] at filled
      refine filled.bind fun entries rest' _ => ?_
      exact (unpackHash_scanned scanned (room - 1) turns entries rest').map
        fun _ _ => ⟨_, rfl, rfl⟩
  · rw [sized]
    exact ⟨rb', line, rfl⟩

theorem pushValue_scanned (border : Entries → Nat) (turns room : Nat) (rb : ReadBlock)
    (type cookie : Nat) (narrow : cookie < 32) :
    Scanned kindOf (pushValue border elements turns room rb type cookie)
      (scanValue scan turns room rb type cookie) := by
  unfold pushValue scanValue
  split_ifs
  · exact push_scanned room nil rb
  · exact push_scanned room _ rb
  · exact (getReal_scanned rb).bind fun _ rest _ => push_scanned room _ rest
  · exact (getInteger_scanned rb cookie).bind fun _ rest _ => push_scanned room _ rest
  · exact (getPointer_scanned rb).bind fun _ rest _ => push_scanned room _ rest
  · exact getBuffer_scanned room rb cookie (by omega)
  · exact short_scanned room rb
  · exact ⟨rb, 469, rfl⟩
  · exact long_scanned room rb 4 473 (by decide)
  · exact unpackTable_scanned scanned border turns room rb cookie
  · exact ⟨rb, 486, rfl⟩

end

theorem unpackOne_scanned (border : Entries → Nat) (turns room : Nat) (rb : ReadBlock) :
    Scanned kindOf (unpackOne border turns room rb) (scanOne turns room rb) := by
  induction turns generalizing room rb with
  | zero => cases rb <;> exact ⟨_, 497, rfl⟩
  | succ turns ih =>
    cases rb with
    | nil => exact ⟨[], 497, rfl⟩
    | cons t rest =>
      have narrow : t.toNat / 8 < 32 := by
        have := t.toNat_lt
        omega
      exact pushValue_scanned ih border turns room rest _ _ narrow

def Ends (proper : Bool) (result : Except Fault (List LuaValue)) : Prop :=
  if proper then (∃ values, result = .ok values) ∨ ∃ rb line, result = invalidStream rb line
  else ∃ fault, result = .error fault ∧ Improper fault

theorem unpackAll_ends (border : Entries → Nat) (source : Source) (turns i : Nat)
    (rb : ReadBlock) :
    Ends (ProperStream source turns i rb) (unpackAll border source turns i rb) := by
  induction turns generalizing i rb with
  | zero => exact .inl ⟨[], rfl⟩
  | succ turns ih =>
    cases rb with
    | nil => exact .inl ⟨[], rfl⟩
    | cons t rest =>
      have narrow : t.toNat / 8 < 32 := by
        have := t.toNat_lt
        omega
      have one := pushValue_scanned (unpackOne_scanned border turns) border turns
        (granted source i - i) rest (t.toNat % 8) (t.toNat / 8) narrow
      unfold ProperStream unpackAll
      simp only
      cases scan : scanValue (scanOne turns) turns (granted source i - i) rest (t.toNat % 8)
        (t.toNat / 8) with
      | item found rest' =>
        rw [scan] at one
        obtain ⟨value, pushed, _⟩ := one
        rw [pushed]
        have later := ih (i + 1) rest'
        show Ends _ (unpackAll border source turns (i + 1) rest' >>= fun values =>
          pure (value :: values))
        unfold Ends at later ⊢
        split_ifs at later ⊢ with proper
        · rcases later with ⟨values, done⟩ | ⟨rb', line, done⟩
          · exact .inl ⟨value :: values, by rw [done]; rfl⟩
          · exact .inr ⟨rb', line, by rw [done]; rfl⟩
        · obtain ⟨fault, done, which⟩ := later
          exact ⟨fault, by rw [done]; rfl, which⟩
      | stopped =>
        rw [scan] at one
        obtain ⟨rb', line, pushed⟩ := one
        exact .inr ⟨rb', line, by rw [pushed]; rfl⟩
      | improper =>
        rw [scan] at one
        obtain ⟨fault, pushed, which⟩ := one
        exact ⟨fault, by rw [pushed]; rfl, which⟩

-- Values are returned or the stream is called invalid, no byte but the `len` is read, nothing is
-- pushed without a free slot, the turns suffice, and the place to read from goes forward only.
def UnpacksSafely (border : Entries → Nat) (source : Source) (buffer : List UInt8) : Prop :=
  ((∃ values, (Pointer.luaseriUnpack buffer border source).1 = .ok values) ∨
    ∃ stop, (Pointer.luaseriUnpack buffer border source).1 = .error stop ∧ InvalidStream stop) ∧
  (Pointer.luaseriUnpack buffer border source).2.Forward

-- The bytes that the `int` length of the buffer stands for.
def received (buffer : List UInt8) : List UInt8 := buffer.take (toCInt buffer.length).toNat

theorem not_invalidStream_nan : ¬InvalidStream (.fault nanIndex) := by
  rintro ⟨len, line, same⟩
  have heads :=
    congrArg (fun text : String => text.toList.head?) (Fault.error.inj (Stop.fault.inj same))
  simp [String.toList_append] at heads

theorem Improper.not_invalidStream {fault : Fault} (improper : Improper fault) :
    ¬InvalidStream (.fault fault) := by
  rcases improper with rfl | rfl | rfl
  · exact not_invalidStream_tooBig
  · exact not_invalidStream_nan
  · rintro ⟨len, line, same⟩
    cases same

theorem invalidStream_error (rb : ReadBlock) (line : Nat) :
    ∃ fault, (invalidStream rb line : Except Fault (List LuaValue)) = .error fault ∧
      InvalidStream (.fault fault) ∧ fault ≠ blockTooBig := by
  have invalid : InvalidStream (.fault (.error ("Invalid serialize stream " ++ toString rb.length ++
      " (line:" ++ toString line ++ ")"))) := ⟨rb.length, line, rfl⟩
  refine ⟨_, rfl, invalid, ?_⟩
  intro same
  rw [same] at invalid
  exact not_invalidStream_tooBig invalid

theorem toCInt_bounds (n : Nat) : toCInt n < 2 ^ 31 ∧ toCInt n ≤ n := by
  have size : Int32.size = 2 ^ 32 := rfl
  unfold toCInt
  rw [Int32.toInt_ofNat', Int.bmod_eq_emod, size]
  constructor <;> split_ifs <;> omega

theorem length_received (buffer : List UInt8) :
    (received buffer).length = (toCInt buffer.length).toNat := by
  have most := (toCInt_bounds buffer.length).2
  unfold received
  rw [List.length_take]
  omega

theorem safe_iff {out : Except Stop (List LuaValue) × ReadState} {proper : Bool}
    {result : Except Fault (List LuaValue)} (same : MatchesAll out result) (ends : Ends proper result) :
    (((∃ values, out.1 = .ok values) ∨ ∃ stop, out.1 = .error stop ∧ InvalidStream stop) ∧
      out.2.Forward) ↔ proper = true := by
  cases proper with
  | true =>
    refine ⟨fun _ => rfl, fun _ => ?_⟩
    rcases ends with ⟨values, rfl⟩ | ⟨rb, line, rfl⟩
    · exact ⟨.inl ⟨values, same.1⟩, same.2⟩
    · obtain ⟨fault, is, invalid, other⟩ := invalidStream_error rb line
      rw [is] at same
      rcases same with ⟨stopped, forward⟩ | ⟨big, _⟩
      · exact ⟨.inr ⟨_, stopped, invalid⟩, forward⟩
      · exact absurd big other
  | false =>
    refine ⟨?_, fun is => by cases is⟩
    rintro ⟨fine, _⟩
    obtain ⟨fault, rfl, which⟩ := ends
    obtain ⟨stop, stopped, wrong⟩ : ∃ stop, out.1 = .error stop ∧ ¬InvalidStream stop := by
      rcases same with ⟨stopped, _⟩ | ⟨_, stop, stopped, wrong⟩
      · exact ⟨_, stopped, which.not_invalidStream⟩
      · exact ⟨stop, stopped, wrong⟩
    rw [stopped] at fine
    rcases fine with ⟨values, is⟩ | ⟨other, is, invalid⟩
    · cases is
    · rw [Except.error.inj is] at wrong
      exact absurd invalid wrong

-- Each byte is a table that becomes a key of the one before it.
example : ProperStream .pointer 22 0 (List.replicate 22 6) = true ∧
    ProperStream .pointer 23 0 (List.replicate 23 6) = false := by
  decide

theorem pointer_values (border : Entries → Nat) (source : Source) (buffer : List UInt8)
    (small : buffer.length < 2 ^ 31) (values : List LuaValue)
    (read : luaseriUnpack border source buffer = .ok values) :
    (Pointer.luaseriUnpack buffer border source).1 = .ok values := by
  have len : toCInt buffer.length = buffer.length := toCInt_eq _ small
  unfold luaseriUnpack at read
  unfold Pointer.luaseriUnpack
  simp only [len, Int.toNat_natCast, List.take_length]
  split_ifs with zero
  · have nothing : buffer = [] := List.eq_nil_of_length_eq_zero (by omega)
    subst nothing
    exact congrArg _ (Except.ok.inj read)
  · have here : At buffer ⟨buffer.length, 0, [0]⟩ buffer := by
      refine ⟨le_refl _, rfl, rfl, zero_add _, ?_, List.pairwise_singleton _ _⟩
      intro place inside
      rw [List.mem_singleton.mp inside]
    have same := unpackAll_follows small border source _ 0 buffer (le_refl _) _ here
    rw [read] at same
    exact same.1

end Pskynet.Seri
