import Pskynet.Bson.Decode
import Pskynet.Bson.Read

set_option autoImplicit false

namespace Pskynet.Bson

open LittleEndian

def upTo (e p : Nat) : Reader := ⟨p, e - p⟩

section

variable (data : List UInt8) (e : Nat)

-- The text at a place, if a zero ends it before `e`.
def textAt (p : Nat) : Option (List UInt8) :=
  let text := ((data.take e).drop p).takeWhile (· ≠ 0)
  if p + text.length < e then some text else none

def numberAt (p : Nat) : Option Int :=
  if p + 4 ≤ e then some (CInt.toInt (value ((data.drop p).take 4))) else none

def elementAt (p : Nat) : Option (UInt8 × List UInt8 × Nat) :=
  if p < e then
    (textAt data e (p + 1)).map fun key => (data.getD p 0, key, p + key.length + 2)
  else none

def uncounted (type : UInt8) : Option Int :=
  if type = bsonString ∨ type = bsonJscode ∨ type = bsonSymbol then some 4
  else if type = bsonDocument ∨ type = bsonArray ∨ type = bsonCodews then some 0
  else if type = bsonBinary then some 5
  else if type = bsonDbpointer then some 16
  else none

def extent (type : UInt8) (v : Nat) : Option Int :=
  if fieldSize type ≠ 0 then some (fieldSize type)
  else if type = bsonMinkey ∨ type = bsonMaxkey ∨ type = bsonNull then some 0
  else if type = bsonRegex then
    (textAt data e v).bind fun r1 =>
      (textAt data e (v + (r1.length + 1))).map fun r2 => ((r1.length + 1 + (r2.length + 1) : Nat) : Int)
  else (uncounted type).bind fun more => (numberAt data e v).map (· + more)

end

def Raises {α : Type} (outcome : Except Fault α) : Prop := ∃ message, outcome = .error (.error message)

section

variable {data : List UInt8} {e p : Nat} {α β : Type}

theorem Raises.bind {first : Except Fault α} (raises : Raises first) (next : α → Except Fault β) :
    Raises (first >>= next) := by
  obtain ⟨message, rfl⟩ := raises
  exact ⟨message, rfl⟩

theorem Raises.map {outcome : Except Fault α} (raises : Raises outcome) (f : α → β) :
    Raises (outcome.map f) := by
  obtain ⟨message, rfl⟩ := raises
  exact ⟨message, rfl⟩

theorem upTo_advance (n : Nat) : (upTo e p).advance n = upTo e (p + n) := by
  simp only [Reader.advance, upTo, Reader.mk.injEq]
  omega

theorem upTo_eq {q : Nat} {place : Int} (same : place = q) : (⟨place, e - place⟩ : Reader) = upTo e q := by
  rw [same, upTo]

theorem checkReader_within {n : Int} (within : p + n ≤ e) : checkReader (upTo e p) n = .ok () :=
  if_neg (by simp only [upTo]; omega)

theorem checkReader_beyond {n : Int} (beyond : e < p + n) : Raises (checkReader (upTo e p) n) :=
  ⟨_, if_pos (by simp only [upTo]; omega)⟩

theorem bytesAt_within {n : Nat} (within : p + n ≤ data.length) :
    bytesAt data p n = .ok ((data.drop p).take n) := by
  unfold bytesAt
  split_ifs with none inside
  · rw [none, List.take_zero]
  · rw [Int.toNat_natCast]
  · omega

theorem byteAt_within (within : p < data.length) : byteAt data p = .ok (data.getD p 0) := by
  unfold byteAt
  rw [if_neg (by omega), Int.toNat_natCast, List.getD_eq_getElem?_getD,
    List.getElem?_eq_getElem within, Option.getD_some]

theorem readByte_within (inside : e ≤ data.length) (within : p < e) :
    readByte data (upTo e p) = .ok (data.getD p 0, upTo e (p + 1)) := by
  unfold readByte
  rw [checkReader_within (by omega), upTo_advance]
  change (byteAt data p).map _ = _
  rw [byteAt_within (by omega)]
  rfl

theorem readByte_beyond (beyond : e ≤ p) : Raises (readByte data (upTo e p)) :=
  (checkReader_beyond (by omega)).bind _

theorem readNumber_within (inside : e ≤ data.length) {n : Nat} (within : p + n ≤ e) :
    readNumber data n (upTo e p) = .ok (value ((data.drop p).take n), upTo e (p + n)) := by
  unfold readNumber
  rw [checkReader_within (by omega), upTo_advance]
  change (bytesAt data p n).map _ = _
  rw [bytesAt_within (by omega)]
  rfl

theorem readNumber_beyond {n : Nat} (beyond : e < p + n) : Raises (readNumber data n (upTo e p)) :=
  (checkReader_beyond (by omega)).bind _

theorem numberAt_some {sz : Int} (found : numberAt data e p = some sz) :
    p + 4 ≤ e ∧ CInt.toInt (value ((data.drop p).take 4)) = sz ∧ -2 ^ 31 ≤ sz ∧ sz < 2 ^ 31 := by
  obtain ⟨within, same⟩ := Option.ite_none_right_eq_some.mp found
  obtain rfl := Option.some.inj same
  exact ⟨within, rfl, CInt.toInt_range _⟩

theorem readInt32_some (inside : e ≤ data.length) {sz : Int} (found : numberAt data e p = some sz) :
    readInt32 data (upTo e p) = .ok (sz, upTo e (p + 4)) := by
  obtain ⟨within, same, -⟩ := numberAt_some found
  unfold readInt32
  rw [readNumber_within inside within]
  exact congrArg (fun sz => Except.ok (sz, upTo e (p + 4))) same

theorem readInt32_none (missing : numberAt data e p = none) : Raises (readInt32 data (upTo e p)) := by
  have beyond : ¬p + 4 ≤ e := by
    intro within
    rw [numberAt, if_pos within] at missing
    cases missing
  exact (readNumber_beyond (Nat.not_le.mp beyond)).map _

theorem readBytes_beyond {n : Int} (beyond : e < p + n) : Raises (readBytes (upTo e p) n) :=
  (checkReader_beyond beyond).bind _

theorem readBytes_within {n : Int} (within : p + n ≤ e) (near : e < p + n + 2 ^ 31) :
    readBytes (upTo e p) n = .ok (p, ⟨p + n, e - (p + n)⟩) := by
  have size : (e : Int) - p - n = e - (p + n) := by omega
  unfold readBytes
  rw [checkReader_within within]
  change (int (e - p - n)).map _ = _
  rw [size, int, CInt.arith_eq (by omega) (by omega)]
  rfl

theorem readBytes_far {n : Int} (within : p + n ≤ e) (far : p + n + 2 ^ 31 ≤ e) :
    readBytes (upTo e p) n = .error .overflow := by
  unfold readBytes
  rw [checkReader_within within]
  change (int (e - p - n)).map _ = _
  rw [int, CInt.arith_none (by omega)]
  rfl

theorem cstring_window (window rest : List UInt8) :
    cstring window.length (window ++ rest) =
      if (window.takeWhile (· ≠ 0)).length < window.length then .ok (window.takeWhile (· ≠ 0))
      else .error (.error "Invalid bson block : cstring") := by
  induction window with
  | nil => cases rest <;> rfl
  | cons byte window ih =>
    have some_ : ((byte :: window).length : Int) ≠ 0 := by
      rw [List.length_cons]
      omega
    have one_less : ((byte :: window).length : Int) - 1 = window.length := by
      rw [List.length_cons]
      omega
    rw [List.cons_append, cstring, if_neg some_, one_less, ih]
    by_cases zero : byte = 0
    · simp [zero]
    · have keeps : (byte :: window).takeWhile (· ≠ 0) = byte :: window.takeWhile (· ≠ 0) :=
        List.takeWhile_cons_of_pos (by simpa using zero)
      simp only [if_neg zero, keeps, List.length_cons, Nat.add_lt_add_iff_right]
      split_ifs <;> rfl

theorem readCstring_window (inside : e ≤ data.length) (before : p ≤ e) :
    readCstring data (upTo e p) =
      if p + (((data.take e).drop p).takeWhile (· ≠ 0)).length < e then
        .ok (((data.take e).drop p).takeWhile (· ≠ 0),
          upTo e (p + ((((data.take e).drop p).takeWhile (· ≠ 0)).length + 1)))
      else .error (.error "Invalid bson block : cstring") := by
  have length : ((data.take e).drop p).length = e - p := by
    rw [List.length_drop, List.length_take_of_le inside]
  have whole : data.drop p = (data.take e).drop p ++ data.drop e := by
    conv_lhs => rw [← List.take_append_drop e data]
    exact List.drop_append_of_le_length (by rw [List.length_take_of_le inside]; exact before)
  have size : (e : Int) - p = ((data.take e).drop p).length := by omega
  have ahead : ¬((p : Int) < 0 ∧ (e : Int) - p ≠ 0) := by omega
  unfold readCstring
  change (if (p : Int) < 0 ∧ (e : Int) - p ≠ 0 then _
    else (cstring (e - p) (data.drop (p : Int).toNat)).map _) = _
  rw [if_neg ahead, size, Int.toNat_natCast, whole, cstring_window, length]
  split_ifs with one two two
  · exact congrArg (fun t => Except.ok (_, t)) (upTo_advance _)
  · omega
  · omega
  · rfl

theorem readCstring_some (inside : e ≤ data.length) (before : p ≤ e) {text : List UInt8}
    (found : textAt data e p = some text) :
    readCstring data (upTo e p) = .ok (text, upTo e (p + (text.length + 1))) := by
  obtain ⟨within, same⟩ := Option.ite_none_right_eq_some.mp found
  obtain rfl := Option.some.inj same
  rw [readCstring_window inside before, if_pos within]

theorem readCstring_none (inside : e ≤ data.length) (before : p ≤ e)
    (missing : textAt data e p = none) : Raises (readCstring data (upTo e p)) := by
  have beyond : ¬p + (((data.take e).drop p).takeWhile (· ≠ 0)).length < e := by
    intro within
    unfold textAt at missing
    rw [if_pos within] at missing
    cases missing
  exact ⟨_, by rw [readCstring_window inside before, if_neg beyond]⟩

theorem textAt_within {text : List UInt8} (found : textAt data e p = some text) :
    p + (text.length + 1) ≤ e := by
  obtain ⟨within, same⟩ := Option.ite_none_right_eq_some.mp found
  obtain rfl := Option.some.inj same
  exact within

theorem elementAt_some {type : UInt8} {key : List UInt8} {v : Nat}
    (found : elementAt data e p = some (type, key, v)) :
    p < e ∧ textAt data e (p + 1) = some key ∧ data.getD p 0 = type ∧ v = p + 1 + (key.length + 1) ∧
      v ≤ e := by
  obtain ⟨within, there⟩ := Option.ite_none_right_eq_some.mp found
  obtain ⟨text, named, same⟩ := Option.map_eq_some_iff.mp there
  obtain ⟨rfl, rfl, rfl⟩ := by simpa only [Prod.mk.injEq] using same
  have ends := textAt_within named
  exact ⟨within, named, rfl, by omega, by omega⟩

theorem elementAt_none (before : p < e) (missing : elementAt data e p = none) :
    textAt data e (p + 1) = none := by
  rw [elementAt, if_pos before] at missing
  exact Option.map_eq_none_iff.mp missing

end

end Pskynet.Bson
