import Pskynet.Shared.LittleEndian

set_option autoImplicit false

namespace Pskynet.Cluster

open LittleEndian

inductive Address where
  | number (addr : UInt32)
  | name (bytes : List UInt8)
  deriving DecidableEq

-- How packing fails: `luaL_error`, or a copy past the end of the buffer on the stack.
inductive Failure where
  | raised (message : String)
  | overflow
  deriving DecidableEq

def tempLength : Nat := 0x10007

def fillUint32 (n : UInt32) : List UInt8 := bytes 4 n.toNat

def unpackUint32 (buf : List UInt8) : UInt32 := UInt32.ofNat (value (buf.take 4))

def fillHeader (sz : Int32) : Except Failure (List UInt8) :=
  if 0x10000 ≤ sz then
    .error (.raised ("request message is too long " ++ toString sz.toInt))
  else .ok [UInt8.ofNat (sz.toUInt32.toNat / 256), UInt8.ofNat sz.toUInt32.toNat]

def fill (sz : Int32) (front msg : List UInt8) : Except Failure (List UInt8) := do
  let header ← fillHeader sz
  if tempLength < header.length + front.length + msg.length then throw .overflow
  return header ++ front ++ msg

def packreqNumber (addr : UInt32) (session : Int32) (msg : List UInt8) :
    Except Failure (List UInt8) :=
  fill (Int32.ofNat (msg.length + 9)) (0 :: fillUint32 addr ++ fillUint32 session.toUInt32) msg

def packreqString (name : List UInt8) (session : Int32) (msg : List UInt8) :
    Except Failure (List UInt8) :=
  if name.length < 1 ∨ 255 < name.length then
    .error (.raised ("name is too long " ++ String.ofList (name.map fun byte => Char.ofNat byte.toNat)))
  else
    fill (Int32.ofNat (msg.length + 5 + name.length))
      (UInt8.ofNat name.length :: name ++ fillUint32 session.toUInt32) msg

def lpackrequest (address : Address) (session : Int32) (msg : List UInt8) :
    Except Failure (List UInt8 × Int32) :=
  if session ≤ 0 then
    .error (.raised ("Invalid request session " ++ toString session.toInt))
  else do
    let packed ← match address with
      | .number addr => packreqNumber addr session msg
      | .name name => packreqString name session msg
    return (packed, if session + 1 < 0 then 1 else session + 1)

def unpackreqNumber (buf : List UInt8) : Except String (Address × UInt32 × List UInt8) :=
  if buf.length < 9 then .error "Invalid cluster message"
  else .ok (.number (unpackUint32 (buf.drop 1)), unpackUint32 (buf.drop 5), buf.drop 9)

def unpackreqString (namesz : Nat) (buf : List UInt8) :
    Except String (Address × UInt32 × List UInt8) :=
  if buf.length < namesz + 5 then .error "Invalid cluster message"
  else .ok (.name ((buf.drop 1).take namesz), unpackUint32 (buf.drop (namesz + 1)),
    buf.drop (1 + namesz + 4))

def lunpackrequest (buf : List UInt8) : Except String (Address × UInt32 × List UInt8) :=
  match buf with
  | [] => unpackreqNumber buf
  | first :: _ => if first = 0 then unpackreqNumber buf else unpackreqString first.toNat buf

-- The message of a response: a string, of which at most 0x1000 bytes are sent, or a block of
-- memory.
inductive Content where
  | string (bytes : List UInt8)
  | userdata (bytes : List UInt8)

def Content.sent : Content → List UInt8
  | .string bytes => bytes.take 0x1000
  | .userdata bytes => bytes

def lpackresponse (session : UInt32) (ok : Bool) (content : Content) :
    Except Failure (List UInt8) :=
  fill (Int32.ofNat (content.sent.length + 5)) (fillUint32 session ++ [if ok then 1 else 0])
    content.sent

def lunpackresponse (buf : List UInt8) : Option (UInt32 × Bool × List UInt8) :=
  if buf.length < 5 then none
  else some (unpackUint32 buf, buf.getD 4 0 ≠ 0, buf.drop 5)

def Framed (packed body : List UInt8) : Prop :=
  ∃ high low : UInt8, packed = high :: low :: body ∧ high.toNat * 256 + low.toNat = body.length

def Returns (result : Except Failure (List UInt8)) (reads : List UInt8 → Prop) : Prop :=
  (∃ message, result = .error (.raised message)) ∨
    ∃ packed body, result = .ok packed ∧ Framed packed body ∧ reads body

def RequestReturns (address : Address) (session : Int32) (msg : List UInt8) : Prop :=
  Returns ((lpackrequest address session msg).map Prod.fst) fun body =>
    lunpackrequest body = .ok (address, session.toUInt32, msg)

def ResponseReturns (session : UInt32) (ok : Bool) (content : Content) : Prop :=
  Returns (lpackresponse session ok content) fun body =>
    lunpackresponse body = some (session, ok, content.sent)

def Address.overhead : Address → Nat
  | .number _ => 9
  | .name bytes => 5 + bytes.length

def Address.Valid : Address → Prop
  | .number _ => True
  | .name bytes => 1 ≤ bytes.length ∧ bytes.length ≤ 255

theorem toNat_ofNat (sz : Nat) (small : sz < 2 ^ 32) : (Int32.ofNat sz).toUInt32.toNat = sz :=
  Nat.mod_eq_of_lt small

theorem le_ofNat_iff (sz : Nat) (small : sz < 2 ^ 31) : 0x10000 ≤ Int32.ofNat sz ↔ 0x10000 ≤ sz := by
  rw [Int32.le_iff_toInt_le, Int32.toInt_ofNat_of_lt small]
  exact Int.ofNat_le

theorem ofNat_neg (sz : Nat) (large : 2 ^ 31 ≤ sz) (small : sz < 2 ^ 32) :
    ¬0x10000 ≤ Int32.ofNat sz := by
  have negative : (Int32.ofNat sz).toInt = sz - 2 ^ 32 := by
    have size : Int32.size = 2 ^ 32 := rfl
    rw [Int32.toInt_ofNat', Int.bmod_def, size]
    split_ifs <;> omega
  rw [Int32.le_iff_toInt_le, negative]
  have bound : (0x10000 : Int32).toInt = 0x10000 := rfl
  omega

theorem fill_returns (sz : Nat) (front msg : List UInt8) (reads : List UInt8 → Prop)
    (small : sz < 2 ^ 32) (is : sz = front.length + msg.length) (back : reads (front ++ msg)) :
    Returns (fill (Int32.ofNat sz) front msg) reads ↔ sz < 2 ^ 31 := by
  constructor
  · intro returns
    by_contra large
    have failed : fill (Int32.ofNat sz) front msg = .error .overflow := by
      have wide : tempLength < [UInt8.ofNat ((Int32.ofNat sz).toUInt32.toNat / 256),
          UInt8.ofNat (Int32.ofNat sz).toUInt32.toNat].length + front.length + msg.length := by
        simp only [tempLength, List.length_cons, List.length_nil]
        omega
      rw [fill, fillHeader, if_neg (ofNat_neg sz (by omega) small)]
      simp only [bind, Except.bind, if_pos wide]
      rfl
    rw [failed] at returns
    rcases returns with ⟨message, raised⟩ | ⟨packed, body, done, _⟩
    · cases raised
    · cases done
  · intro bound
    by_cases long : 0x10000 ≤ sz
    · refine .inl ⟨"request message is too long " ++ toString (Int32.ofNat sz).toInt, ?_⟩
      rw [fill, fillHeader, if_pos ((le_ofNat_iff sz bound).mpr long)]
      rfl
    · have fits : ¬tempLength < [UInt8.ofNat (sz / 256), UInt8.ofNat sz].length + front.length +
          msg.length := by
        simp only [tempLength, List.length_cons, List.length_nil]
        omega
      refine .inr ⟨UInt8.ofNat (sz / 256) :: UInt8.ofNat sz :: (front ++ msg), front ++ msg, ?_,
        ⟨_, _, rfl, ?_⟩, back⟩
      · rw [fill, fillHeader, if_neg (mt (le_ofNat_iff sz bound).mp long), toNat_ofNat sz small]
        simp only [bind, Except.bind, if_neg fits]
        rfl
      · rw [UInt8.toNat_ofNat', UInt8.toNat_ofNat', List.length_append, ← is]
        omega

theorem unpackUint32_fill (n : UInt32) (rest : List UInt8) :
    unpackUint32 (fillUint32 n ++ rest) = n := by
  have small := n.toNat_lt
  rw [unpackUint32, fillUint32, List.take_left' (length_bytes 4 n.toNat),
    value_bytes_of_lt 4 n.toNat (by omega), UInt32.ofNat_toNat]

@[simp] theorem length_fillUint32 (n : UInt32) : (fillUint32 n).length = 4 := length_bytes 4 _

theorem Returns.map {result : Except Failure (List UInt8)} {reads : List UInt8 → Prop}
    {α : Type} (f : α) :
    Returns ((result.map fun packed => (packed, f)).map Prod.fst) reads ↔ Returns result reads := by
  cases result with
  | ok packed => exact Iff.rfl
  | error failure => exact Iff.rfl

theorem request_number (addr : UInt32) (session : Int32) (msg : List UInt8) :
    lunpackrequest (0 :: fillUint32 addr ++ fillUint32 session.toUInt32 ++ msg) =
      .ok (.number addr, session.toUInt32, msg) := by
  have long : ¬(0 :: fillUint32 addr ++ fillUint32 session.toUInt32 ++ msg).length < 9 := by
    simp only [List.length_append, List.length_cons, length_fillUint32]
    omega
  have second : (0 :: fillUint32 addr ++ fillUint32 session.toUInt32 ++ msg).drop 5 =
      fillUint32 session.toUInt32 ++ msg := by
    rw [List.append_assoc]
    exact List.drop_left' (by simp)
  have third : (0 :: fillUint32 addr ++ fillUint32 session.toUInt32 ++ msg).drop 9 = msg :=
    List.drop_left' (by simp)
  have first : (0 :: fillUint32 addr ++ fillUint32 session.toUInt32 ++ msg).drop 1 =
      fillUint32 addr ++ (fillUint32 session.toUInt32 ++ msg) := by
    simp
  have is : lunpackrequest (0 :: fillUint32 addr ++ fillUint32 session.toUInt32 ++ msg) =
      unpackreqNumber (0 :: fillUint32 addr ++ fillUint32 session.toUInt32 ++ msg) := by
    rw [List.cons_append, List.cons_append, lunpackrequest, if_pos rfl]
  rw [is, unpackreqNumber, if_neg long, first, second, third, unpackUint32_fill, unpackUint32_fill]

theorem request_name (name : List UInt8) (valid : 1 ≤ name.length ∧ name.length ≤ 255)
    (session : Int32) (msg : List UInt8) :
    lunpackrequest (UInt8.ofNat name.length :: name ++ fillUint32 session.toUInt32 ++ msg) =
      .ok (.name name, session.toUInt32, msg) := by
  have size : (UInt8.ofNat name.length).toNat = name.length := by
    rw [UInt8.toNat_ofNat', Nat.mod_eq_of_lt (by omega)]
  have some_ : UInt8.ofNat name.length ≠ 0 := by
    intro zero
    rw [zero] at size
    have none_ : name.length = 0 := size.symm
    omega
  have long : ¬(UInt8.ofNat name.length :: name ++ fillUint32 session.toUInt32 ++ msg).length <
      name.length + 5 := by
    simp only [List.length_append, List.length_cons, length_fillUint32]
    omega
  have second : (UInt8.ofNat name.length :: name ++ fillUint32 session.toUInt32 ++ msg).drop
      (name.length + 1) = fillUint32 session.toUInt32 ++ msg := by
    rw [List.append_assoc]
    exact List.drop_left' (by simp)
  have third : (UInt8.ofNat name.length :: name ++ fillUint32 session.toUInt32 ++ msg).drop
      (1 + name.length + 4) = msg :=
    List.drop_left' (by simp; omega)
  have first : ((UInt8.ofNat name.length :: name ++ fillUint32 session.toUInt32 ++ msg).drop
      1).take name.length = name := by
    simp
  have is : lunpackrequest (UInt8.ofNat name.length :: name ++ fillUint32 session.toUInt32 ++ msg) =
      unpackreqString (UInt8.ofNat name.length).toNat
        (UInt8.ofNat name.length :: name ++ fillUint32 session.toUInt32 ++ msg) :=
    if_neg some_
  rw [is, size, unpackreqString, if_neg long, first, second, third, unpackUint32_fill]

theorem response_read (session : UInt32) (ok : Bool) (msg : List UInt8) :
    lunpackresponse (fillUint32 session ++ [if ok then 1 else 0] ++ msg) =
      some (session, ok, msg) := by
  have long : ¬(fillUint32 session ++ [if ok then 1 else 0] ++ msg).length < 5 := by
    simp only [List.length_append, List.length_singleton, length_fillUint32]
    omega
  have flag : (fillUint32 session ++ [if ok then (1 : UInt8) else 0] ++ msg).getD 4 0 =
      if ok then 1 else 0 := by
    rw [List.append_assoc, List.getD_eq_getElem?_getD, List.getElem?_append_right (by simp)]
    simp
  have rest : (fillUint32 session ++ [if ok then (1 : UInt8) else 0] ++ msg).drop 5 = msg :=
    List.drop_left' (by simp)
  rw [lunpackresponse, if_neg long, flag, rest, List.append_assoc, unpackUint32_fill]
  cases ok <;> rfl

theorem request_returns_iff (address : Address) (valid : address.Valid) (session : Int32)
    (pos : 0 < session) (msg : List UInt8) (small : msg.length < 2 ^ 31) :
    RequestReturns address session msg ↔ msg.length + address.overhead < 2 ^ 31 := by
  unfold RequestReturns lpackrequest
  rw [if_neg (Int32.not_le.mpr pos)]
  cases address with
  | number addr =>
    have body := fill_returns (msg.length + 9)
      (0 :: fillUint32 addr ++ fillUint32 session.toUInt32) msg
      (fun body => lunpackrequest body = .ok (.number addr, session.toUInt32, msg)) (by omega)
      (by simp; omega) (request_number addr session msg)
    exact (Returns.map _).trans body
  | name name =>
    obtain ⟨some_, short⟩ := valid
    have body := fill_returns (msg.length + 5 + name.length)
      (UInt8.ofNat name.length :: name ++ fillUint32 session.toUInt32) msg
      (fun body => lunpackrequest body = .ok (.name name, session.toUInt32, msg))
      (by omega) (by simp; omega) (request_name name ⟨some_, short⟩ session msg)
    have accepted : ¬(name.length < 1 ∨ 255 < name.length) := by omega
    simp only [packreqString, if_neg accepted]
    refine (Returns.map _).trans (body.trans ?_)
    rw [Address.overhead, Nat.add_assoc]

theorem response_returns_iff (session : UInt32) (ok : Bool) (content : Content)
    (small : content.sent.length < 2 ^ 31) :
    ResponseReturns session ok content ↔ content.sent.length + 5 < 2 ^ 31 :=
  fill_returns (content.sent.length + 5) (fillUint32 session ++ [if ok then 1 else 0])
    content.sent _ (by omega) (by simp; omega) (response_read session ok content.sent)

theorem cluster_round_trip (address : Address) (valid : address.Valid) (session : Int32)
    (pos : 0 < session) (msg : List UInt8) (small : msg.length < 2 ^ 31) (answered : UInt32)
    (ok : Bool) (content : Content) (short : content.sent.length < 2 ^ 31) :
    (RequestReturns address session msg ↔ msg.length + address.overhead < 2 ^ 31) ∧
      (ResponseReturns answered ok content ↔ content.sent.length + 5 < 2 ^ 31) :=
  ⟨request_returns_iff address valid session pos msg small,
    response_returns_iff answered ok content short⟩

theorem named_request_returns :
    RequestReturns (.name [0x64, 0x62]) 7 [1, 2, 3] ∧ ResponseReturns 7 true (.string [4]) := by
  obtain ⟨request, response⟩ := cluster_round_trip (.name [0x64, 0x62]) ⟨by decide, by decide⟩ 7
    (by decide) [1, 2, 3] (by decide) 7 true (.string [4]) (by decide)
  exact ⟨request.mpr (by decide), response.mpr (by decide)⟩

theorem huge_request_overflows :
    ¬RequestReturns (.number 1) 1 (List.replicate (2 ^ 31 - 1) 0) := by
  rw [request_returns_iff (.number 1) trivial 1 (by decide) _ (by rw [List.length_replicate]; decide),
    List.length_replicate]
  decide

end Pskynet.Cluster
