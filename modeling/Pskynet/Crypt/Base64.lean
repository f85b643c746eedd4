import Pskynet.Crypt.Des
import Pskynet.Crypt.Hex
import Pskynet.Shared.Outcome
import Pskynet.Shared.Words

set_option autoImplicit false

namespace Pskynet.Crypt

open CInt

attribute [local irreducible] toInt

-- An error of Lua, or what C leaves undefined: an `int` that overflows, or a place outside of
-- the buffer.
inductive Base64Fault where
  | error (text : String)
  | undefined
  deriving DecidableEq, Repr

def encoding : List UInt8 :=
  [65, 66, 67, 68, 69, 70, 71, 72, 73, 74, 75, 76, 77, 78, 79, 80, 81, 82, 83, 84, 85, 86, 87, 88,
    89, 90, 97, 98, 99, 100, 101, 102, 103, 104, 105, 106, 107, 108, 109, 110, 111, 112, 113, 114,
    115, 116, 117, 118, 119, 120, 121, 122, 48, 49, 50, 51, 52, 53, 54, 55, 56, 57, 43, 47]

def encodingAt (v : UInt32) : UInt8 := encoding.getD v.toNat 0

-- `buffer` is `tmp` or a userdata of `sz` bytes.
def roomFor (sz : Int) : Int := if sz > smallChunk then sz else smallChunk

-- `bytes` are written behind what was written to the buffer.
def put (room : Int) (buffer bytes : List UInt8) : Except Base64Fault (List UInt8) :=
  if ((buffer.length + bytes.length : Nat) : Int) ≤ room then .ok (buffer ++ bytes)
  else .error .undefined

def encodeGroup (first second third : UInt8) : List UInt8 :=
  let v := first.toUInt32 <<< 16 ||| second.toUInt32 <<< 8 ||| third.toUInt32
  [encodingAt (v >>> 18), encodingAt ((v >>> 12) &&& 0x3f), encodingAt ((v >>> 6) &&& 0x3f),
    encodingAt (v &&& 0x3f)]

def encodeOne (first : UInt8) : List UInt8 :=
  let v := first.toUInt32
  [encodingAt (v >>> 2), encodingAt ((v &&& 3) <<< 4), 61, 61]

def encodeTwo (first second : UInt8) : List UInt8 :=
  let v := first.toUInt32 <<< 8 ||| second.toUInt32
  [encodingAt (v >>> 10), encodingAt ((v >>> 4) &&& 0x3f), encodingAt ((v &&& 0xf) <<< 2), 61]

def encodeLoop (room last : Int) :
    Nat → List UInt8 → List UInt8 → Except Base64Fault (List UInt8 × List UInt8)
  | i, buffer, first :: second :: third :: rest =>
    if i < last then
      put room buffer (encodeGroup first second third) >>= fun buffer =>
        encodeLoop room last (i + 3) buffer rest
    else .ok (buffer, first :: second :: third :: rest)
  | _, buffer, text => .ok (buffer, text)

def encodePadding (room : Int) (buffer text : List UInt8) : Except Base64Fault (List UInt8) :=
  let padding := toInt text.length
  if padding = 1 then put room buffer (encodeOne (text.getD 0 0))
  else if padding = 2 then put room buffer (encodeTwo (text.getD 0 0) (text.getD 1 0))
  else .ok buffer

def pushBuffer (buffer : List UInt8) (sz : Int) : Except Base64Fault (List UInt8) :=
  if 0 ≤ sz ∧ sz ≤ buffer.length then .ok (buffer.take sz.toNat) else .error .undefined

def encodeSize (sz : Nat) : Int := toInt ((sz + 2) / 3 * 4 : Nat)

def encodeEnd (sz : Nat) : Except Base64Fault Int :=
  (arith (toInt sz - 2)).elim (.error .undefined) .ok

def b64encode (text : List UInt8) : Except Base64Fault (List UInt8) :=
  encodeEnd text.length >>= fun last =>
    encodeLoop (roomFor (encodeSize text.length)) last 0 [] text >>= fun (buffer, rest) =>
      encodePadding (roomFor (encodeSize text.length)) buffer rest >>= fun buffer =>
        pushBuffer buffer (encodeSize text.length)

def decoding : List Int :=
  [62, -1, -1, -1, 63, 52, 53, 54, 55, 56, 57, 58, 59, 60, 61, -1, -1, -1, -2, -1, -1, -1, 0, 1, 2,
    3, 4, 5, 6, 7, 8, 9, 10, 11, 12, 13, 14, 15, 16, 17, 18, 19, 20, 21, 22, 23, 24, 25, -1, -1, -1,
    -1, -1, -1, 26, 27, 28, 29, 30, 31, 32, 33, 34, 35, 36, 37, 38, 39, 40, 41, 42, 43, 44, 45, 46,
    47, 48, 49, 50, 51]

def b64index (c : UInt8) : Int :=
  if c < 43 then -1
  else
    let c := c - 43
    if decoding.length ≤ c.toNat then -1 else decoding.getD c.toNat (-1)

-- The loop over `j`, which is the number of the values in `c`.
def readGroup (i : Nat) (text : List UInt8) (c : List Int) :
    Except Base64Fault (List Int × Nat × List UInt8) :=
  if c.length = 4 then .ok (c, i, text)
  else
    match text with
    | [] => .error (.error "Invalid base64 text")
    | first :: rest =>
      match arith (i + 1) with
      | none => .error .undefined
      | some _ =>
        if b64index first = -1 then readGroup (i + 1) rest c
        else readGroup (i + 1) rest (c ++ [b64index first])

def toUint32 (c : Int) : UInt32 := UInt32.ofInt c

-- `switch (padding)`; the padding is counted while `c` is read.
def decodeGroup (c : List Int) : Except Base64Fault (List UInt8) :=
  let at_ := fun j => toUint32 (c.getD j (-1))
  match c.count (-2) with
  | 0 =>
    let v := at_ 0 <<< 18 ||| at_ 1 <<< 12 ||| at_ 2 <<< 6 ||| at_ 3
    .ok [(v >>> 16).toUInt8, ((v >>> 8) &&& 0xff).toUInt8, (v &&& 0xff).toUInt8]
  | 1 =>
    if c.getD 3 (-1) ≠ -2 ∨ at_ 2 &&& 3 ≠ 0 then .error (.error "Invalid base64 text")
    else
      let v := at_ 0 <<< 10 ||| at_ 1 <<< 4 ||| at_ 2 >>> 2
      .ok [(v >>> 8).toUInt8, (v &&& 0xff).toUInt8]
  | 2 =>
    if c.getD 3 (-1) ≠ -2 ∨ c.getD 2 (-1) ≠ -2 ∨ at_ 1 &&& 0xf ≠ 0 then
      .error (.error "Invalid base64 text")
    else .ok [(at_ 0 <<< 2 ||| at_ 1 >>> 4).toUInt8]
  | _ => .error (.error "Invalid base64 text")

theorem readGroup_length {i : Nat} {text : List UInt8} {c : List Int} {i' : Nat}
    {rest : List UInt8} {c' : List Int} (read : readGroup i text c = .ok (c', i', rest)) :
    rest.length + 4 ≤ text.length + c.length := by
  induction text generalizing i c with
  | nil =>
    unfold readGroup at read
    split_ifs at read with full
    simp only [Except.ok.injEq, Prod.mk.injEq] at read
    obtain ⟨rfl, rfl, rfl⟩ := read
    omega
  | cons first text ih =>
    unfold readGroup at read
    split_ifs at read with full
    · simp only [Except.ok.injEq, Prod.mk.injEq] at read
      obtain ⟨rfl, rfl, rfl⟩ := read
      omega
    · cases next : arith ((i : Int) + 1) with
      | none => simp only [next, reduceCtorEq] at read
      | some after =>
        simp only [next] at read
        rw [List.length_cons]
        split_ifs at read with skipped
        · have later := ih read
          omega
        · have later := ih read
          rw [List.length_append, List.length_singleton] at later
          omega

-- `output` is the length of `buffer`.
def decodeLoop (room : Int) (i : Nat) (buffer text : List UInt8) :
    Except Base64Fault (List UInt8) :=
  if text = [] then .ok buffer
  else
    match read : readGroup i text [] with
    | .error fault => .error fault
    | .ok (c, i', rest) =>
      decodeGroup c >>= put room buffer >>= fun buffer => decodeLoop room i' buffer rest
termination_by text.length
decreasing_by
  have shorter := readGroup_length read
  rw [List.length_nil] at shorter
  omega

def b64decode (text : List UInt8) : Except Base64Fault (List UInt8) :=
  decodeLoop (roomFor (toInt ((text.length + 3) / 4 * 3 : Nat))) 0 [] text

def Foreign (c : UInt8) : Prop := c ∉ encoding ∧ c ≠ 61

instance (c : UInt8) : Decidable (Foreign c) := inferInstanceAs (Decidable (_ ∧ _))

abbrev ForeignChar := { c : UInt8 // Foreign c }

-- The text with the characters `gap` in front, and those of `gaps` between any two of its own.
def spread (gaps : Nat → List ForeignChar) : List ForeignChar → Nat → List UInt8 → List UInt8
  | _, _, [] => []
  | gap, k, c :: rest => gap.map Subtype.val ++ c :: spread gaps (gaps k) (k + 1) rest

-- The bytes come back from their encoding with the characters of `gaps` between its own.
def Base64RoundTrips (text : List UInt8) (gaps : Nat → List ForeignChar) : Prop :=
  ∃ code, b64encode text = .ok code ∧ b64decode (spread gaps [] 0 code) = .ok text

theorem put_ok {room : Int} {buffer bytes : List UInt8}
    (fits : ((buffer.length + bytes.length : Nat) : Int) ≤ room) :
    put room buffer bytes = .ok (buffer ++ bytes) := if_pos fits

theorem put_some {room : Int} {buffer bytes all : List UInt8}
    (done : put room buffer bytes = .ok all) : all = buffer ++ bytes := by
  unfold put at done
  split_ifs at done
  exact (Except.ok.inj done).symm

theorem decodeLoop_step {room : Int} {i i' : Nat} {buffer text rest : List UInt8} {c : List Int}
    (filled : text ≠ []) (read : readGroup i text [] = .ok (c, i', rest)) :
    decodeLoop room i buffer text =
      (decodeGroup c >>= put room buffer >>= fun buffer => decodeLoop room i' buffer rest) := by
  rw [decodeLoop, if_neg filled]
  split
  · rename_i other
    rw [read] at other
    exact nomatch other
  · rename_i other
    rw [read] at other
    simp only [Except.ok.injEq, Prod.mk.injEq] at other
    obtain ⟨rfl, rfl, rfl⟩ := other
    rfl

def encoded : List UInt8 → List UInt8
  | [] => []
  | [first] => encodeOne first
  | [first, second] => encodeTwo first second
  | first :: second :: third :: rest => encodeGroup first second third ++ encoded rest

theorem length_encoded (text : List UInt8) :
    (encoded text).length = (text.length + 2) / 3 * 4 := by
  induction text using encoded.induct with
  | case1 => rfl
  | case2 first => simp [encoded, encodeOne]
  | case3 first second => simp [encoded, encodeTwo]
  | case4 first second third rest ih =>
    rw [encoded, List.length_append, ih]
    simp only [encodeGroup, List.length_cons, List.length_nil]
    omega

theorem encodePadding_nothing (room : Int) (buffer : List UInt8) :
    encodePadding room buffer [] = .ok buffer := by
  have zero : toInt (([] : List UInt8).length : Nat) = 0 := toInt_eq (by decide) (by decide)
  have other : ¬(0 : Int) = 1 ∧ ¬(0 : Int) = 2 := by decide
  simp only [encodePadding, zero, if_neg other.1, if_neg other.2]

theorem encodePadding_one (room : Int) (buffer : List UInt8) (first : UInt8) :
    encodePadding room buffer [first] = put room buffer (encodeOne first) := by
  have one : toInt (([first].length : Nat) : Int) = 1 := toInt_eq (by simp) (by simp)
  simp only [encodePadding, one, if_true]
  rfl

theorem encodePadding_two (room : Int) (buffer : List UInt8) (first second : UInt8) :
    encodePadding room buffer [first, second] = put room buffer (encodeTwo first second) := by
  have two : toInt (([first, second].length : Nat) : Int) = 2 := toInt_eq (by simp) (by simp)
  have other : ¬(2 : Int) = 1 := by decide
  simp only [encodePadding, two, if_neg other, if_true]
  rfl

theorem encode_encoded (room : Int) (i : Nat) (buffer text : List UInt8)
    (fits : ((buffer.length + (encoded text).length : Nat) : Int) ≤ room) :
    (encodeLoop room ((i + text.length : Nat) - 2) i buffer text >>= fun (buffer, rest) =>
      encodePadding room buffer rest) = .ok (buffer ++ encoded text) := by
  induction text using encoded.induct generalizing i buffer with
  | case1 =>
    rw [encoded, List.append_nil]
    exact encodePadding_nothing room buffer
  | case2 first => exact (encodePadding_one room buffer first).trans (put_ok fits)
  | case3 first second => exact (encodePadding_two room buffer first second).trans (put_ok fits)
  | case4 first second third rest ih =>
    have last : ((i + (first :: second :: third :: rest).length : Nat) : Int) - 2 =
        (i + 3 + rest.length : Nat) - 2 := by
      simp only [List.length_cons]
      omega
    have more : (i : Int) < (i + 3 + rest.length : Nat) - 2 := by omega
    rw [encoded] at fits ⊢
    rw [List.length_append, ← Nat.add_assoc] at fits
    rw [last, encodeLoop, if_pos more, put_ok (by omega), ← List.append_assoc]
    refine ih (i + 3) (buffer ++ encodeGroup first second third) ?_
    rw [List.length_append]
    exact fits

theorem roomFor_le (sz : Int) : sz ≤ roomFor sz := by
  unfold roomFor
  split_ifs <;> omega

theorem b64encode_encoded (text : List UInt8) (small : (encoded text).length < 2 ^ 31) :
    b64encode text = .ok (encoded text) := by
  have length := length_encoded text
  have size : encodeSize text.length = ((encoded text).length : Nat) := by
    rw [encodeSize, ← length]
    exact toInt_eq (by omega) (by omega)
  have last : encodeEnd text.length = .ok (((0 + text.length : Nat) : Int) - 2) := by
    rw [encodeEnd, toInt_eq (by omega) (by omega), Nat.zero_add, arith_eq (by omega) (by omega)]
    rfl
  have written := encode_encoded (roomFor (encoded text).length) 0 [] text
    (by rw [List.length_nil, Nat.zero_add]; exact roomFor_le _)
  have pushed : pushBuffer (encoded text) (encoded text).length = .ok (encoded text) := by
    unfold pushBuffer
    rw [if_pos ⟨Int.natCast_nonneg _, le_refl _⟩, Int.toNat_natCast, List.take_length]
  rw [b64encode, last, size]
  change encodeLoop _ _ 0 [] text >>= _ = _
  rw [← bind_assoc, written]
  exact pushed

theorem encodingAt_ofNat : ∀ n < 64, b64index (encodingAt (UInt32.ofNat n)) = n := by
  decide +kernel

theorem encodingAt_index (v : UInt32) (small : v.toNat < 64) :
    b64index (encodingAt v) = v.toNat := by
  have read := encodingAt_ofNat v.toNat small
  rwa [UInt32.ofNat_toNat] at read

theorem b64index_padding : b64index 61 = -2 := by decide

theorem encodingAt_b64index (c : UInt8) :
    b64index c = -1 ∨ c = 61 ∨ encoding[(b64index c).toNat]? = some c :=
  Bytes.forall_byte (fun c => b64index c = -1 ∨ c = 61 ∨ encoding[(b64index c).toNat]? = some c)
    (by decide +kernel) c

theorem foreign_iff (c : UInt8) : Foreign c ↔ b64index c = -1 := by
  constructor
  · rintro ⟨outside, other⟩
    rcases encodingAt_b64index c with none_ | same | here
    · exact none_
    · exact absurd same other
    · exact absurd (List.mem_of_getElem? here) outside
  · intro none_
    constructor
    · intro inside
      obtain ⟨n, bound, same⟩ := List.mem_iff_getElem.mp inside
      have small : n < 64 := bound
      have read := encodingAt_ofNat n small
      have value : (UInt32.ofNat n).toNat = n := UInt32.toNat_ofNat_of_lt' (small.trans (by decide))
      rw [encodingAt, value, List.getD_eq_getElem?_getD, List.getElem?_eq_getElem bound,
        Option.getD_some, same, none_] at read
      omega
    · rintro rfl
      rw [b64index_padding] at none_
      cases none_

theorem toUint32_toNat (v : UInt32) : toUint32 (v.toNat : Int) = v := by
  have bound := v.toNat_lt
  have same : ((v.toNat : Int) % 2 ^ 32).toNat = v.toNat := by omega
  rw [toUint32, UInt32.ofInt]
  exact (congrArg UInt32.ofNat same).trans UInt32.ofNat_toNat

theorem sextet_lt (v : UInt32) : (v &&& 0x3f).toNat < 64 := by
  rw [UInt32.toNat_and]
  exact Nat.lt_succ_of_le Nat.and_le_right

theorem toNat_cleared (v k : UInt32) (small : k.toNat < 32) :
    ((v >>> k) <<< k).toNat = v.toNat / 2 ^ k.toNat * 2 ^ k.toNat := by
  rw [Words.toNat_shiftLeft_lt _ _ small, Words.toNat_shiftRight_lt _ _ small]
  exact Nat.mod_eq_of_lt ((Nat.div_mul_le_self _ _).trans_lt v.toNat_lt)

theorem toNat_sextet (v k : UInt32) (small : k.toNat ≤ 12) :
    (((v >>> k) &&& 0x3f) <<< k).toNat = v.toNat / 2 ^ k.toNat % 2 ^ 6 * 2 ^ k.toNat := by
  have fits : v.toNat / 2 ^ k.toNat % 2 ^ 6 * 2 ^ k.toNat < 2 ^ 32 :=
    calc v.toNat / 2 ^ k.toNat % 2 ^ 6 * 2 ^ k.toNat ≤ 2 ^ 6 * 2 ^ 12 := by
          gcongr
          · exact (Nat.mod_lt _ (by decide)).le
          · decide
      _ < 2 ^ 32 := by decide
  rw [Words.toNat_shiftLeft_lt _ _ (by omega), Words.toNat_and_mask 6 _ 0x3f rfl,
    Words.toNat_shiftRight_lt _ _ (by omega), Nat.mod_eq_of_lt fits]

theorem sextets_join (v : UInt32) :
    (v >>> 18) <<< 18 ||| ((v >>> 12) &&& 0x3f) <<< 12 ||| ((v >>> 6) &&& 0x3f) <<< 6 |||
      (v &&& 0x3f) = v := by
  have first : ((v >>> 18) <<< 18).toNat = v.toNat / 2 ^ 18 * 2 ^ 18 :=
    toNat_cleared v 18 (by decide)
  have second : (((v >>> 12) &&& 0x3f) <<< 12).toNat = v.toNat / 2 ^ 12 % 2 ^ 6 * 2 ^ 12 :=
    toNat_sextet v 12 (by decide)
  have third : (((v >>> 6) &&& 0x3f) <<< 6).toNat = v.toNat / 2 ^ 6 % 2 ^ 6 * 2 ^ 6 :=
    toNat_sextet v 6 (by decide)
  have fourth : (v &&& 0x3f).toNat = v.toNat % 2 ^ 6 := Words.toNat_and_mask 6 v 0x3f rfl
  have two := Words.toNat_or_disjoint 18 _ (((v >>> 12) &&& 0x3f) <<< 12)
    (Dvd.intro_left _ first.symm) (by omega)
  have three := Words.toNat_or_disjoint 12 _ (((v >>> 6) &&& 0x3f) <<< 6)
    (by rw [two]; omega) (by omega)
  have four := Words.toNat_or_disjoint 6 _ (v &&& 0x3f) (by rw [three]; omega) (by omega)
  rw [← UInt32.toNat_inj, four]
  omega

theorem toNat_top (a : UInt8) : ((a >>> 2).toUInt32).toNat = a.toNat / 2 ^ 2 := by
  rw [UInt8.toNat_toUInt32, UInt8.toNat_shiftRight]
  exact Nat.shiftRight_eq_div_pow ..

theorem group_bytes (a b c : UInt8) :
    let v := a.toUInt32 <<< 16 ||| b.toUInt32 <<< 8 ||| c.toUInt32
    v >>> 18 = (a >>> 2).toUInt32 ∧ (v >>> 16).toUInt8 = a ∧ ((v >>> 8) &&& 0xff).toUInt8 = b ∧
      (v &&& 0xff).toUInt8 = c := by
  intro v
  have boundA := a.toNat_lt
  have boundB := b.toNat_lt
  have boundC := c.toNat_lt
  have value : v.toNat = a.toNat * 2 ^ 16 + b.toNat * 2 ^ 8 + c.toNat := by
    have bytes := Words.toNat_four_bytes 0 a b c
    have none_ : (0 : UInt8).toUInt32 <<< 24 = 0 := rfl
    rw [none_, UInt32.zero_or, UInt8.toNat_zero, Nat.zero_mul, Nat.zero_add] at bytes
    exact bytes
  refine ⟨?_, ?_, ?_, ?_⟩
  · rw [← UInt32.toNat_inj, Words.toNat_shiftRight_lt _ _ (by decide), toNat_top, value]
    change _ / 2 ^ 18 = _
    omega
  · rw [← UInt8.toNat_inj, UInt32.toNat_toUInt8, Words.toNat_shiftRight_lt _ _ (by decide), value]
    change _ / 2 ^ 16 % _ = _
    omega
  · rw [← UInt8.toNat_inj, UInt32.toNat_toUInt8, Words.toNat_and_mask 8 _ 0xff rfl,
      Words.toNat_shiftRight_lt _ _ (by decide), value]
    change _ / 2 ^ 8 % _ % _ = _
    omega
  · rw [← UInt8.toNat_inj, UInt32.toNat_toUInt8, Words.toNat_and_mask 8 _ 0xff rfl, value]
    omega

theorem two_bytes (a b : UInt8) :
    let v := a.toUInt32 <<< 8 ||| b.toUInt32
    let w := (v >>> 10) <<< 10 ||| ((v >>> 4) &&& 0x3f) <<< 4 ||| ((v &&& 0xf) <<< 2) >>> 2
    v >>> 10 = (a >>> 2).toUInt32 ∧ (v &&& 0xf) <<< 2 = (v <<< 2) &&& 0x3f ∧
      ((v &&& 0xf) <<< 2) &&& 3 = 0 ∧ (w >>> 8).toUInt8 = a ∧ (w &&& 0xff).toUInt8 = b := by
  intro v w
  have boundA := a.toNat_lt
  have boundB := b.toNat_lt
  have value : v.toNat = a.toNat * 2 ^ 8 + b.toNat := by
    have bytes := Words.toNat_four_bytes 0 0 a b
    have none_ : (0 : UInt8).toUInt32 <<< 24 ||| (0 : UInt8).toUInt32 <<< 16 = 0 := rfl
    rw [none_, UInt32.zero_or, UInt8.toNat_zero, Nat.zero_mul, Nat.zero_mul, Nat.zero_add] at bytes
    exact bytes
  have last : ((v &&& 0xf) <<< 2).toNat = v.toNat % 2 ^ 4 * 2 ^ 2 := by
    rw [Words.toNat_shiftLeft_lt _ _ (by decide), Words.toNat_and_mask 4 _ 0xf rfl]
    change _ * 2 ^ 2 % _ = _
    exact Nat.mod_eq_of_lt (by omega)
  have same : w = v := by
    have first : ((v >>> 10) <<< 10).toNat = v.toNat / 2 ^ 10 * 2 ^ 10 :=
      toNat_cleared v 10 (by decide)
    have second : (((v >>> 4) &&& 0x3f) <<< 4).toNat = v.toNat / 2 ^ 4 % 2 ^ 6 * 2 ^ 4 :=
      toNat_sextet v 4 (by decide)
    have third : (((v &&& 0xf) <<< 2) >>> 2).toNat = v.toNat % 2 ^ 4 := by
      rw [Words.toNat_shiftRight_lt _ _ (by decide), last]
      exact Nat.mul_div_cancel _ (by decide)
    have two := Words.toNat_or_disjoint 10 _ (((v >>> 4) &&& 0x3f) <<< 4)
      (Dvd.intro_left _ first.symm) (by omega)
    have three := Words.toNat_or_disjoint 4 _ (((v &&& 0xf) <<< 2) >>> 2)
      (by rw [two]; omega) (by omega)
    rw [← UInt32.toNat_inj, three]
    omega
  refine ⟨?_, ?_, ?_, ?_, ?_⟩
  · rw [← UInt32.toNat_inj, Words.toNat_shiftRight_lt _ _ (by decide), toNat_top, value]
    change _ / 2 ^ 10 = _
    omega
  · rw [← UInt32.toNat_inj, last, Words.toNat_and_mask 6 _ 0x3f rfl,
      Words.toNat_shiftLeft_lt _ _ (by decide)]
    change _ = _ * 2 ^ 2 % _ % _
    omega
  · rw [← UInt32.toNat_inj, Words.toNat_and_mask 2 _ 3 rfl, last]
    exact Nat.mul_mod_left _ _
  · rw [same, ← UInt8.toNat_inj, UInt32.toNat_toUInt8, Words.toNat_shiftRight_lt _ _ (by decide),
      value]
    change _ / 2 ^ 8 % _ = _
    omega
  · rw [same, ← UInt8.toNat_inj, UInt32.toNat_toUInt8, Words.toNat_and_mask 8 _ 0xff rfl, value]
    omega

theorem one_byte (a : UInt8) :
    let v := a.toUInt32
    v >>> 2 = (a >>> 2).toUInt32 ∧ (v &&& 3) <<< 4 = (v <<< 4) &&& 0x3f ∧
      ((v &&& 3) <<< 4) &&& 0xf = 0 ∧ ((v >>> 2) <<< 2 ||| ((v &&& 3) <<< 4) >>> 4).toUInt8 = a := by
  intro v
  have bound := a.toNat_lt
  have value : v.toNat = a.toNat := UInt8.toNat_toUInt32 a
  have last : ((v &&& 3) <<< 4).toNat = v.toNat % 2 ^ 2 * 2 ^ 4 := by
    rw [Words.toNat_shiftLeft_lt _ _ (by decide), Words.toNat_and_mask 2 _ 3 rfl]
    change _ * 2 ^ 4 % _ = _
    exact Nat.mod_eq_of_lt (by omega)
  refine ⟨?_, ?_, ?_, ?_⟩
  · rw [← UInt32.toNat_inj, Words.toNat_shiftRight_lt _ _ (by decide), toNat_top, value]
    rfl
  · rw [← UInt32.toNat_inj, last, Words.toNat_and_mask 6 _ 0x3f rfl,
      Words.toNat_shiftLeft_lt _ _ (by decide)]
    change _ = _ * 2 ^ 4 % _ % _
    omega
  · rw [← UInt32.toNat_inj, Words.toNat_and_mask 4 _ 0xf rfl, last]
    exact Nat.mul_mod_left _ _
  · have first : ((v >>> 2) <<< 2).toNat = v.toNat / 2 ^ 2 * 2 ^ 2 := toNat_cleared v 2 (by decide)
    have second : (((v &&& 3) <<< 4) >>> 4).toNat = v.toNat % 2 ^ 2 := by
      rw [Words.toNat_shiftRight_lt _ _ (by decide), last]
      exact Nat.mul_div_cancel _ (by decide)
    have both := Words.toNat_or_disjoint 2 _ (((v &&& 3) <<< 4) >>> 4)
      (Dvd.intro_left _ first.symm) (by omega)
    rw [← UInt8.toNat_inj, UInt32.toNat_toUInt8, both]
    omega

theorem top_lt (a : UInt8) : ((a >>> 2).toUInt32).toNat < 64 := by
  have bound := a.toNat_lt
  rw [toNat_top]
  omega

structure Codes (chars bytes : List UInt8) : Prop where
  four : chars.length = 4
  read : ∀ c ∈ chars, b64index c ≠ -1
  decoded : decodeGroup (chars.map b64index) = .ok bytes

theorem codes_group (p q r s : UInt32) (smallP : p.toNat < 64) (smallQ : q.toNat < 64)
    (smallR : r.toNat < 64) (smallS : s.toNat < 64) :
    Codes [encodingAt p, encodingAt q, encodingAt r, encodingAt s]
      [((p <<< 18 ||| q <<< 12 ||| r <<< 6 ||| s) >>> 16).toUInt8,
        (((p <<< 18 ||| q <<< 12 ||| r <<< 6 ||| s) >>> 8) &&& 0xff).toUInt8,
        ((p <<< 18 ||| q <<< 12 ||| r <<< 6 ||| s) &&& 0xff).toUInt8] := by
  have indices := And.intro (encodingAt_index p smallP) (And.intro (encodingAt_index q smallQ)
    (And.intro (encodingAt_index r smallR) (encodingAt_index s smallS)))
  refine ⟨rfl, ?_, ?_⟩
  · simp only [List.forall_mem_cons, List.not_mem_nil, false_implies, implies_true, and_true,
      indices]
    omega
  · have none : [(p.toNat : Int), q.toNat, r.toNat, s.toNat].count (-2) = 0 := by
      rw [List.count_eq_zero]
      simp only [List.mem_cons, List.not_mem_nil, or_false]
      omega
    simp only [List.map_cons, List.map_nil, indices, decodeGroup, none]
    simp only [List.getD_cons_zero, List.getD_cons_succ, toUint32_toNat]

theorem codes_two (p q r : UInt32) (smallP : p.toNat < 64) (smallQ : q.toNat < 64)
    (smallR : r.toNat < 64) (unused : r &&& 3 = 0) :
    Codes [encodingAt p, encodingAt q, encodingAt r, 61]
      [((p <<< 10 ||| q <<< 4 ||| r >>> 2) >>> 8).toUInt8,
        ((p <<< 10 ||| q <<< 4 ||| r >>> 2) &&& 0xff).toUInt8] := by
  have indices := And.intro (encodingAt_index p smallP) (And.intro (encodingAt_index q smallQ)
    (And.intro (encodingAt_index r smallR) b64index_padding))
  refine ⟨rfl, ?_, ?_⟩
  · simp only [List.forall_mem_cons, List.not_mem_nil, false_implies, implies_true, and_true,
      indices]
    omega
  · have one : [(p.toNat : Int), q.toNat, r.toNat, -2].count (-2) = 1 := by
      have none : [(p.toNat : Int), q.toNat, r.toNat].count (-2) = 0 := by
        rw [List.count_eq_zero]
        simp only [List.mem_cons, List.not_mem_nil, or_false]
        omega
      change ([(p.toNat : Int), q.toNat, r.toNat] ++ [-2]).count (-2) = 1
      rw [List.count_append, none]
      rfl
    simp only [List.map_cons, List.map_nil, indices, decodeGroup, one]
    simp only [List.getD_cons_zero, List.getD_cons_succ, toUint32_toNat, unused]
    rfl

theorem codes_one (p q : UInt32) (smallP : p.toNat < 64) (smallQ : q.toNat < 64)
    (unused : q &&& 0xf = 0) :
    Codes [encodingAt p, encodingAt q, 61, 61] [(p <<< 2 ||| q >>> 4).toUInt8] := by
  have indices := And.intro (encodingAt_index p smallP) (And.intro (encodingAt_index q smallQ)
    b64index_padding)
  refine ⟨rfl, ?_, ?_⟩
  · simp only [List.forall_mem_cons, List.not_mem_nil, false_implies, implies_true, and_true,
      indices]
    omega
  · have two : [(p.toNat : Int), q.toNat, -2, -2].count (-2) = 2 := by
      have none : [(p.toNat : Int), q.toNat].count (-2) = 0 := by
        rw [List.count_eq_zero]
        simp only [List.mem_cons, List.not_mem_nil, or_false]
        omega
      change ([(p.toNat : Int), q.toNat] ++ [-2, -2]).count (-2) = 2
      rw [List.count_append, none]
      rfl
    simp only [List.map_cons, List.map_nil, indices, decodeGroup, two]
    simp only [List.getD_cons_zero, List.getD_cons_succ, toUint32_toNat, unused]
    rfl

theorem encodeGroup_codes (a b c : UInt8) : Codes (encodeGroup a b c) [a, b, c] := by
  obtain ⟨top, first, second, third⟩ := group_bytes a b c
  have codes : Codes (encodeGroup a b c) _ :=
    codes_group _ _ _ _ (by rw [top]; exact top_lt a) (sextet_lt _) (sextet_lt _) (sextet_lt _)
  rwa [sextets_join, first, second, third] at codes

theorem encodeTwo_codes (a b : UInt8) : Codes (encodeTwo a b) [a, b] := by
  obtain ⟨top, low, unused, first, second⟩ := two_bytes a b
  have codes : Codes (encodeTwo a b) _ :=
    codes_two _ _ _ (by rw [top]; exact top_lt a) (sextet_lt _) (by rw [low]; exact sextet_lt _)
      unused
  rwa [first, second] at codes

theorem encodeOne_codes (a : UInt8) : Codes (encodeOne a) [a] := by
  obtain ⟨top, low, unused, first⟩ := one_byte a
  have codes : Codes (encodeOne a) _ :=
    codes_one _ _ (by rw [top]; exact top_lt a) (by rw [low]; exact sextet_lt _) unused
  rwa [first] at codes

end Pskynet.Crypt
