import Pskynet.Harbor.Moves
import Pskynet.Shared.Framing
import Pskynet.Shared.Words

set_option autoImplicit false

namespace Pskynet.Harbor

open Server Memory

theorem fromBigendian_toNat (a b c d : UInt8) :
    (fromBigendian [a, b, c, d]).toNat =
      a.toNat * 2 ^ 24 + b.toNat * 2 ^ 16 + c.toNat * 2 ^ 8 + d.toNat :=
  Words.toNat_four_bytes a b c d

theorem fromBigendian_toBigendian (n : UInt32) : fromBigendian (toBigendian n) = n := by
  have bound := n.toNat_lt
  have byte (k : UInt32) (small : k.toNat < 32) :
      (n >>> k).toUInt8.toNat = n.toNat / 2 ^ k.toNat % 2 ^ 8 := by
    rw [UInt32.toNat_toUInt8, Words.toNat_shiftRight_lt n k small]
  have first : (n >>> 24).toUInt8.toNat = n.toNat / 2 ^ 24 % 2 ^ 8 := byte 24 (by decide)
  have second : (n >>> 16).toUInt8.toNat = n.toNat / 2 ^ 16 % 2 ^ 8 := byte 16 (by decide)
  have third : (n >>> 8).toUInt8.toNat = n.toNat / 2 ^ 8 % 2 ^ 8 := byte 8 (by decide)
  have last : n.toUInt8.toNat = n.toNat % 2 ^ 8 := UInt32.toNat_toUInt8 n
  rw [← UInt32.toNat_inj, toBigendian, fromBigendian_toNat, first, second, third, last]
  omega

theorem length_headerToMessage (header : Header) : (headerToMessage header).length = 12 := rfl

theorem messageToHeader_headerToMessage (header : Header) :
    messageToHeader (headerToMessage header) = header := by
  have source : (headerToMessage header).take 4 = toBigendian header.source := rfl
  have destination : ((headerToMessage header).drop 4).take 4 = toBigendian header.destination := rfl
  have session : ((headerToMessage header).drop 8).take 4 = toBigendian header.session := rfl
  rw [messageToHeader, source, destination, session]
  simp only [fromBigendian_toBigendian]

theorem toNat_tagged (type : UInt8) (low : UInt32) :
    (type.toUInt32 <<< 24 ||| low &&& handleMask).toNat =
      type.toNat * 2 ^ 24 + low.toNat % 2 ^ 24 := by
  have high : (type.toUInt32 <<< 24).toNat = type.toNat * 2 ^ 24 :=
    Words.toNat_shiftLeft_byte type 24 (by decide)
  have masked : (low &&& handleMask).toNat = low.toNat % 2 ^ 24 :=
    Words.toNat_and_mask 24 low handleMask (by decide)
  rw [Words.toNat_or_disjoint 24 _ _ (by omega) (by omega), high, masked]

theorem tagged_type (type : UInt8) (low : UInt32) :
    (type.toUInt32 <<< 24 ||| low &&& handleMask) >>> 24 = type.toUInt32 := by
  have bound := type.toNat_lt
  have shifted := Words.toNat_shiftRight_lt (type.toUInt32 <<< 24 ||| low &&& handleMask) 24 (by decide)
  change _ = _ / 2 ^ 24 at shifted
  rw [← UInt32.toNat_inj, shifted, toNat_tagged, UInt8.toNat_toUInt32]
  omega

theorem tagged_low (type : UInt8) (low : UInt32) :
    (type.toUInt32 <<< 24 ||| low &&& handleMask) &&& handleMask = low &&& handleMask := by
  rw [← UInt32.toNat_inj, Words.toNat_and_mask 24 _ handleMask (by decide), toNat_tagged,
    Words.toNat_and_mask 24 _ handleMask (by decide)]
  omega

def lengthOf (size : List UInt8) : Nat :=
  (size.getD 1 0).toNat <<< 16 ||| (size.getD 2 0).toNat <<< 8 ||| (size.getD 3 0).toNat

-- The frames of `send_remote`: no longer than three bytes can say, with a cookie inside.
def format : Framing.Format where
  header := 4
  size := fun head =>
    if head.getD 0 0 = 0 ∧ headerCookieLength ≤ lengthOf head then some (lengthOf head) else none
  pos := by decide

theorem format_size (head : List UInt8) (n : Nat) (known : format.size head = some n) :
    head.getD 0 0 = 0 ∧ lengthOf head = n ∧ headerCookieLength ≤ n := by
  simp only [format] at known
  split_ifs at known with good
  simp only [Option.some.injEq] at known
  exact ⟨good.1, known, known ▸ good.2⟩

theorem size_toBigendian (n : Nat) (cookie : headerCookieLength ≤ n) (bound : n < 2 ^ 24) :
    format.size (toBigendian n.toUInt32) = some n := by
  have value : n.toUInt32.toNat = n := by
    rw [Nat.toUInt32_eq, UInt32.toNat_ofNat', Nat.mod_eq_of_lt (by omega)]
  have byte (k : UInt32) (small : k.toNat < 32) :
      (n.toUInt32 >>> k).toUInt8.toNat = n / 2 ^ k.toNat % 2 ^ 8 := by
    rw [UInt32.toNat_toUInt8, Words.toNat_shiftRight_lt _ k small, value]
  have zero : (n.toUInt32 >>> 24).toUInt8 = 0 := by
    have first : (n.toUInt32 >>> 24).toUInt8.toNat = n / 2 ^ 24 % 2 ^ 8 := byte 24 (by decide)
    rw [← UInt8.toNat_inj, first, Nat.div_eq_of_lt bound]
    rfl
  have second : (n.toUInt32 >>> 16).toUInt8.toNat = n / 2 ^ 16 % 2 ^ 8 := byte 16 (by decide)
  have third : (n.toUInt32 >>> 8).toUInt8.toNat = n / 2 ^ 8 % 2 ^ 8 := byte 8 (by decide)
  have last : n.toUInt32.toUInt8.toNat = n % 2 ^ 8 := by rw [UInt32.toNat_toUInt8, value]
  have length : lengthOf (toBigendian n.toUInt32) = n := by
    simp only [lengthOf, toBigendian, List.getD_cons_succ, List.getD_cons_zero, second, third, last,
      Nat.shiftLeft_eq]
    have join : 2 ^ 16 * (n / 2 ^ 16 % 2 ^ 8) + 2 ^ 8 * (n / 2 ^ 8 % 2 ^ 8) =
        2 ^ 8 * (2 ^ 8 * (n / 2 ^ 16 % 2 ^ 8) + n / 2 ^ 8 % 2 ^ 8) := by ring
    rw [Nat.mul_comm, Nat.mul_comm _ (2 ^ 8), ← Nat.two_pow_add_eq_or_of_lt (by omega), join,
      ← Nat.two_pow_add_eq_or_of_lt (by omega)]
    omega
  have front : (toBigendian n.toUInt32).getD 0 0 = 0 := zero
  simp only [format, front, length, cookie, and_self, if_true]

structure Delivery where
  source : UInt32
  destination : UInt32
  type : UInt32
  session : UInt32
  payload : List UInt8
  deriving DecidableEq, Repr

def deliveries (log : List Effect) : List Delivery :=
  log.filterMap fun
    | .send source destination type session payload _ =>
        if type &&& ptypeTagDontcopy ≠ 0 then some ⟨source, destination, type, session, payload⟩
        else none
    | _ => none

theorem deliveries_append (log more : List Effect) :
    deliveries (log ++ more) = deliveries log ++ deliveries more := by
  simp [deliveries]

theorem deliveries_written (fd : Int) (messages : List HarborMsg) :
    deliveries (messages.map (written fd)) = [] := by
  simp [deliveries, written]

def arrival (id : UInt32) (msg : List UInt8) : Delivery :=
  let size := msg.length - headerCookieLength
  let header := messageToHeader (msg.drop size)
  { source := header.source
    destination := header.destination &&& handleMask ||| id <<< 24
    type := header.destination >>> 24 ||| ptypeTagDontcopy
    session := header.session
    payload := msg.take size }

theorem tag_kept (type : UInt32) : (type ||| ptypeTagDontcopy) &&& ptypeTagDontcopy ≠ 0 := by
  intro zero
  have value := congrArg UInt32.toNat zero
  rw [Words.or_and_right, UInt32.and_self, UInt32.toNat_or] at value
  have large : ptypeTagDontcopy.toNat ≤
      (type &&& ptypeTagDontcopy).toNat ||| ptypeTagDontcopy.toNat := Nat.right_le_or
  rw [value] at large
  contradiction

-- Two states of a service that differ in their slot `id` and in what was done.
structure Aside (h h' : Harbor) (id : Nat) : Prop where
  ctx : h'.ctx = h.ctx
  own : h'.id = h.id
  fd : (h'.s id).fd = (h.s id).fd
  others : ∀ other, other ≠ id → h'.s other = h.s other

theorem Aside.refl (h : Harbor) (id : Nat) : Aside h h id := ⟨rfl, rfl, rfl, fun _ _ => rfl⟩

theorem Aside.trans {a b c : Harbor} {id : Nat} (first : Aside a b id) (second : Aside b c id) :
    Aside a c id :=
  ⟨second.ctx.trans first.ctx, second.own.trans first.own, second.fd.trans first.fd,
    fun other different => (second.others other different).trans (first.others other different)⟩

theorem setSlave_aside (h : Harbor) (id : Nat) (slave : Slave) (same : slave.fd = (h.s id).fd) :
    Aside h (h.setSlave id slave) id := by
  refine ⟨rfl, rfl, ?_, ?_⟩
  · simpa [Harbor.setSlave] using same
  · intro other different
    simp [Harbor.setSlave, different]

theorem Aside.harborId {h h' : Harbor} {id : Nat} (aside : Aside h h' id) (fd : Int) :
    harborId h' fd = harborId h fd := by
  have same : ∀ i, (h'.s i).fd = (h.s i).fd := by
    intro i
    by_cases here : i = id
    · rw [here, aside.fd]
    · rw [aside.others i here]
  simp [Harbor.harborId, same]

theorem forwardLocalMessage_delivers (h : Harbor) (msg : List UInt8)
    (cookie : headerCookieLength ≤ msg.length) :
    ∃ h', forwardLocalMessage h msg = some h' ∧
      deliveries h'.log = deliveries h.log ++ [arrival h.id msg] ∧ h'.s = h.s ∧
      h'.ctx = h.ctx ∧ h'.id = h.id := by
  have tag := tag_kept ((messageToHeader (msg.drop (msg.length - headerCookieLength))).destination >>> 24)
  have error : (7 : UInt32) &&& ptypeTagDontcopy = 0 := by decide
  unfold forwardLocalMessage
  rw [if_neg (by omega)]
  simp only
  split_ifs
  · refine ⟨_, rfl, ?_, rfl, rfl, rfl⟩
    simp [Harbor.did, deliveries, tag, arrival]
  · refine ⟨_, rfl, ?_, rfl, rfl, rfl⟩
    simp [Harbor.did, deliveries, tag, error, arrival]

inductive Reading (s : Slave) : List UInt8 → Prop where
  | header (rest : List UInt8) (status : s.status = .header) (read : s.read = rest.length)
      (short : rest.length < 4) (block : s.size.length = 4)
      (kept : s.size.take rest.length = rest) : Reading s rest
  | content (head body : List UInt8) (status : s.status = .content) (whole : head.length = 4)
      (size : format.size head = some s.length) (read : s.read = body.length)
      (short : body.length < s.length) (block : s.recvBuffer.length = s.length)
      (kept : s.recvBuffer.take body.length = body) (four : s.size.length = 4) :
      Reading s (head ++ body)

theorem Reading.fresh {s : Slave} (reading : Reading s []) :
    s.status = .header ∧ s.read = 0 ∧ s.size.length = 4 := by
  generalize nothing : ([] : List UInt8) = rest at reading
  cases reading with
  | header _ status read _ block =>
    subst nothing
    exact ⟨status, read, block⟩
  | content head body _ whole =>
    simp only [List.nil_eq, List.append_eq_nil_iff] at nothing
    rw [nothing.1] at whole
    contradiction

-- Headers that `send_remote` does not write: one whose first byte is set, and one that leaves no
-- room for a cookie.
def TooLong (rest : List UInt8) : Prop := 4 ≤ rest.length ∧ rest.getD 0 0 ≠ 0

def Short (rest : List UInt8) : Prop :=
  4 ≤ rest.length ∧ rest.getD 0 0 = 0 ∧ lengthOf rest < headerCookieLength

instance (rest : List UInt8) : Decidable (Short rest) := inferInstanceAs (Decidable (_ ∧ _))

-- A slot between two calls, whatever was sent to it; `rest` is what is left of the stream behind
-- the last whole frame.
inductive Holding (s : Slave) (rest : List UInt8) : Prop where
  | reading (reading : Reading s rest)
  | tooLong (refused : TooLong rest) (status : s.status = .down)
  | short (short : Short rest) (status : s.status = .content) (length : s.length = lengthOf rest)
      (read : s.read = rest.length - 4) (fits : s.read ≤ s.length)
      (block : s.recvBuffer.length = s.length)

theorem lengthOf_front (rest more : List UInt8) (four : 4 ≤ rest.length) :
    lengthOf (rest ++ more) = lengthOf rest := by
  simp only [lengthOf, List.getD_append rest more 0 _ (by omega : 1 < rest.length),
    List.getD_append rest more 0 _ (by omega : 2 < rest.length),
    List.getD_append rest more 0 _ (by omega : 3 < rest.length)]

theorem Short.append {rest : List UInt8} (short : Short rest) (more : List UInt8) :
    Short (rest ++ more) := by
  obtain ⟨four, zero, cookie⟩ := short
  refine ⟨by rw [List.length_append]; omega, ?_, ?_⟩
  · rwa [List.getD_append rest more 0 0 (by omega)]
  · rwa [lengthOf_front rest more four]

theorem TooLong.append {rest : List UInt8} (refused : TooLong rest) (more : List UInt8) :
    TooLong (rest ++ more) := by
  obtain ⟨four, set⟩ := refused
  refine ⟨by rw [List.length_append]; omega, ?_⟩
  rwa [List.getD_append rest more 0 0 (by omega)]

theorem next_refused (rest : List UInt8) (refused : TooLong rest ∨ Short rest) :
    Framing.next format rest = none := by
  have four : 4 ≤ rest.length := refused.elim And.left And.left
  have front : (rest.take 4).getD 0 0 = rest.getD 0 0 := by
    rw [← List.take_append_drop 4 rest,
      List.getD_append _ _ 0 0 (by rw [List.length_take]; omega), List.take_append_drop]
  have length : lengthOf (rest.take 4) = lengthOf rest := by
    rw [← lengthOf_front (rest.take 4) (rest.drop 4) (by rw [List.length_take]; omega),
      List.take_append_drop]
  have size : format.size (rest.take 4) = none := by
    simp only [format, front, length]
    rw [if_neg]
    rintro ⟨zero, cookie⟩
    obtain ⟨_, set⟩ | ⟨_, _, short⟩ := refused
    · exact set zero
    · omega
  unfold Framing.next
  rw [show format.header = 4 from rfl, size]

structure Reads (h h' : Harbor) (id : Nat) (bodies : List (List UInt8)) : Prop where
  delivered : deliveries h'.log = deliveries h.log ++ bodies.map (arrival h.id)
  aside : Aside h h' id

theorem Reads.trans {a b c : Harbor} {id : Nat} {first second : List (List UInt8)}
    (one : Reads a b id first) (two : Reads b c id second) : Reads a c id (first ++ second) := by
  refine ⟨?_, one.aside.trans two.aside⟩
  rw [two.delivered, one.delivered, one.aside.own]
  simp

theorem setSlave_reads (h : Harbor) (id : Nat) (slave : Slave) (same : slave.fd = (h.s id).fd) :
    Reads h (h.setSlave id slave) id [] :=
  ⟨by simp [Harbor.setSlave], setSlave_aside h id slave same⟩

theorem closeHarbor_reads (h : Harbor) (id : Nat) (text : String) :
    Reads h (closeHarbor (h.did (.error text)) id) id [] := by
  rw [closeHarbor_eq]
  refine ⟨?_, rfl, rfl, ?_, fun other different => setSlave_other _ _ _ _ different⟩
  · have freed_none : deliveries ((queued (h.s id).queue).map freed) = [] := by
      simp [deliveries, freed]
    simp only [Harbor.setSlave, Harbor.did, deliveries_append, freed_none]
    split_ifs with linked <;> simp [deliveries, linked]
  · rw [setSlave_self]
    rfl

theorem readContent_whole (h : Harbor) (id : Nat) (head body buffer : List UInt8)
    (size : format.size head = some (h.s id).length) (read : (h.s id).read = body.length)
    (block : (h.s id).recvBuffer.length = (h.s id).length)
    (kept : (h.s id).recvBuffer.take body.length = body) (four : (h.s id).size.length = 4)
    (short : body.length < (h.s id).length)
    (enough : (h.s id).length - body.length ≤ buffer.length) :
    ∃ h', readContent h id buffer =
        some (h', if (buffer.drop ((h.s id).length - body.length)).length = 0 then none
          else some (buffer.drop ((h.s id).length - body.length))) ∧
      Reading (h'.s id) [] ∧
      Reads h h' id [body ++ buffer.take ((h.s id).length - body.length)] := by
  have filled : memcpy (h.s id).recvBuffer body.length (buffer.take ((h.s id).length - body.length)) =
      body ++ buffer.take ((h.s id).length - body.length) := by
    rw [memcpy_full, kept]
    rw [List.length_take]
    omega
  have cookie := (format_size head _ size).2.2
  obtain ⟨h', forwarded, delivered, slots, ctx, own⟩ := forwardLocalMessage_delivers h
    (body ++ buffer.take ((h.s id).length - body.length))
    (by rw [List.length_append, List.length_take]; omega)
  have turn : readContent h id buffer =
      some (h'.setSlave id
          { h.s id with length := 0, read := 0, recvBuffer := [], status := .header },
        if (buffer.drop ((h.s id).length - body.length)).length = 0 then none
        else some (buffer.drop ((h.s id).length - body.length))) := by
    simp only [readContent, read]
    rw [if_neg (by omega), filled, forwarded]
    rfl
  refine ⟨_, turn, ?_, ?_⟩
  · rw [setSlave_self]
    exact .header [] rfl rfl (by decide) four rfl
  · refine ⟨by simpa [Harbor.setSlave] using delivered, ?_⟩
    refine ⟨ctx, own, ?_, ?_⟩
    · rw [setSlave_self]
    · intro other different
      simp [Harbor.setSlave, different, slots]

theorem readContent_part (h : Harbor) (id : Nat) (head body buffer : List UInt8)
    (status : (h.s id).status = .content) (whole : head.length = 4)
    (size : format.size head = some (h.s id).length) (read : (h.s id).read = body.length)
    (block : (h.s id).recvBuffer.length = (h.s id).length)
    (kept : (h.s id).recvBuffer.take body.length = body) (four : (h.s id).size.length = 4)
    (short : body.length + buffer.length < (h.s id).length) :
    ∃ h', readContent h id buffer = some (h', none) ∧
      Reading (h'.s id) (head ++ (body ++ buffer)) ∧ Reads h h' id [] := by
  have fits : body.length + buffer.length ≤ (h.s id).recvBuffer.length := by omega
  have turn : readContent h id buffer =
      some (h.setSlave id
        { h.s id with
          recvBuffer := memcpy (h.s id).recvBuffer body.length buffer
          read := body.length + buffer.length }, none) := by
    simp only [readContent, read]
    rw [if_pos (by omega)]
  refine ⟨_, turn, ?_, ?_⟩
  · rw [setSlave_self]
    refine .content head (body ++ buffer) status whole size (by simp) (by simpa using short)
      ?_ ?_ four
    · rw [length_memcpy _ _ _ fits, block]
    · rw [List.length_append, take_memcpy _ _ _ fits, kept]
  · exact setSlave_reads h id _ rfl

theorem readHeader_whole (h : Harbor) (id n : Nat) (rest buffer : List UInt8)
    (read : (h.s id).read = rest.length) (short : rest.length < 4)
    (block : (h.s id).size.length = 4) (kept : (h.s id).size.take rest.length = rest)
    (enough : 4 - rest.length ≤ buffer.length)
    (zero : (rest ++ buffer.take (4 - rest.length)).getD 0 0 = 0)
    (length : lengthOf (rest ++ buffer.take (4 - rest.length)) = n) :
    ∃ h', readHeader h id buffer =
        (h', if (buffer.drop (4 - rest.length)).length = 0 then none
          else some (buffer.drop (4 - rest.length))) ∧
      (h'.s id).status = .content ∧ (h'.s id).length = n ∧ (h'.s id).read = 0 ∧
      (h'.s id).recvBuffer.length = n ∧ (h'.s id).size.length = 4 ∧ Reads h h' id [] := by
  have filled : memcpy (h.s id).size rest.length (buffer.take (4 - rest.length)) =
      rest ++ buffer.take (4 - rest.length) := by
    rw [memcpy_full, kept]
    rw [List.length_take]
    omega
  have four : (rest ++ buffer.take (4 - rest.length)).length = 4 := by
    rw [List.length_append, List.length_take]
    omega
  have turn : readHeader h id buffer =
      (h.setSlave id
          { h.s id with
            size := rest ++ buffer.take (4 - rest.length), length := n, read := 0,
            recvBuffer := malloc n, status := .content },
        if (buffer.drop (4 - rest.length)).length = 0 then none
        else some (buffer.drop (4 - rest.length))) := by
    simp only [readHeader, read, filled]
    unfold lengthOf at length
    rw [if_neg (by omega), if_neg (by simpa using zero), length]
  refine ⟨_, turn, ?_⟩
  rw [setSlave_self]
  exact ⟨rfl, rfl, rfl, length_malloc n, four, setSlave_reads h id _ rfl⟩

theorem readHeader_part (h : Harbor) (id : Nat) (rest buffer : List UInt8)
    (status : (h.s id).status = .header) (read : (h.s id).read = rest.length)
    (block : (h.s id).size.length = 4) (kept : (h.s id).size.take rest.length = rest)
    (short : rest.length + buffer.length < 4) :
    ∃ h', readHeader h id buffer = (h', none) ∧ Reading (h'.s id) (rest ++ buffer) ∧
      Reads h h' id [] := by
  have fits : rest.length + buffer.length ≤ (h.s id).size.length := by omega
  have turn : readHeader h id buffer =
      (h.setSlave id
        { h.s id with
          size := memcpy (h.s id).size rest.length buffer
          read := rest.length + buffer.length }, none) := by
    simp only [readHeader, read]
    rw [if_pos (by omega)]
  refine ⟨_, turn, ?_, setSlave_reads h id _ rfl⟩
  rw [setSlave_self]
  refine .header (rest ++ buffer) status (by simp) (by simpa using short) ?_ ?_
  · rw [length_memcpy _ _ _ fits, block]
  · rw [List.length_append, take_memcpy _ _ _ fits, kept]

theorem readHeader_refused (h : Harbor) (id : Nat) (rest buffer : List UInt8)
    (read : (h.s id).read = rest.length) (short : rest.length < 4)
    (block : (h.s id).size.length = 4) (kept : (h.s id).size.take rest.length = rest)
    (enough : 4 - rest.length ≤ buffer.length)
    (set : (rest ++ buffer.take (4 - rest.length)).getD 0 0 ≠ 0) :
    ∃ h', readHeader h id buffer = (h', none) ∧ (h'.s id).status = .down ∧ Reads h h' id [] := by
  have filled : memcpy (h.s id).size rest.length (buffer.take (4 - rest.length)) =
      rest ++ buffer.take (4 - rest.length) := by
    rw [memcpy_full, kept]
    rw [List.length_take]
    omega
  have resized := setSlave_reads h id
    { h.s id with size := rest ++ buffer.take (4 - rest.length) } rfl
  refine ⟨_, ?_, ?_, resized.trans (closeHarbor_reads _ id
    ("Message is too long from harbor " ++ toString id))⟩
  · simp only [readHeader, read, filled]
    rw [if_neg (by omega), if_pos set]
  · rw [closeHarbor_eq, setSlave_self]

def afterTurn (turns id : Nat) (fd : Int) : Option (Harbor × Option (List UInt8)) → Option Harbor
  | none => none
  | some (h, none) => some h
  | some (h, some left) => socketLoop turns h id fd left

theorem socketLoop_succ (turns : Nat) (h : Harbor) (id : Nat) (fd : Int) (buffer : List UInt8) :
    socketLoop (turns + 1) h id fd buffer = afterTurn turns id fd (socketTurn h id fd buffer) := by
  rw [socketLoop]
  rcases socketTurn h id fd buffer with _ | ⟨h, _ | left⟩ <;> rfl

-- What the loop makes of the bytes behind the last whole frame and of those it is given: the
-- bodies are forwarded, and only a short frame can take the process down.
inductive LoopEnds (h : Harbor) (id : Nat) (bytes : List UInt8) : Option Harbor → Prop where
  | holding (h' : Harbor) (holding : Holding (h'.s id) (Framing.split format bytes).2)
      (reads : Reads h h' id (Framing.split format bytes).1) : LoopEnds h id bytes (some h')
  | broken (short : Short (Framing.split format bytes).2) : LoopEnds h id bytes none

theorem LoopEnds.stop {h h' : Harbor} {id : Nat} {bytes : List UInt8}
    (part : Framing.next format bytes = none) (holding : Holding (h'.s id) bytes)
    (reads : Reads h h' id []) : LoopEnds h id bytes (some h') := by
  have split := Framing.split_none format _ part
  refine .holding h' ?_ ?_
  · rwa [split]
  · rwa [split]

theorem LoopEnds.go {h h' : Harbor} {id : Nat} {bytes body left : List UInt8}
    {result : Option Harbor} (found : Framing.next format bytes = some (body, left))
    (reads : Reads h h' id [body]) (later : LoopEnds h' id left result) :
    LoopEnds h id bytes result := by
  have split := Framing.split_some format _ _ _ found
  cases later with
  | holding final holding more =>
    refine .holding final ?_ ?_
    · rwa [split]
    · rw [split]
      exact reads.trans more
  | broken short =>
    refine .broken ?_
    rwa [split]

theorem LoopEnds.after {h h' : Harbor} {id : Nat} {bytes : List UInt8} {result : Option Harbor}
    (reads : Reads h h' id []) (later : LoopEnds h' id bytes result) :
    LoopEnds h id bytes result := by
  cases later with
  | holding final holding more => exact .holding final holding (reads.trans more)
  | broken short => exact .broken short

theorem split_body (head body : List UInt8) (n : Nat) (whole : head.length = 4)
    (size : format.size head = some n) :
    Framing.next format (head ++ body) =
      if n ≤ body.length then some (body.take n, body.drop n) else none := by
  have front : (head ++ body).take 4 = head := by rw [← whole, List.take_left]
  unfold Framing.next
  rw [show format.header = 4 from rfl, front, size]
  by_cases enough : n ≤ body.length
  · rw [if_pos enough]
    simp only [List.length_append, whole]
    rw [if_pos (by omega), ← whole, List.drop_left, List.drop_append, List.drop_of_length_le (by omega)]
    simp
  · rw [if_neg enough]
    simp only [List.length_append, whole]
    rw [if_neg (by omega)]

theorem next_short (bytes : List UInt8) (short : bytes.length < 4) :
    Framing.next format bytes = none := by
  unfold Framing.next
  split
  · rfl
  · rw [if_neg]
    change ¬4 + _ ≤ bytes.length
    omega

def ContentEnds (buffer : List UInt8) : Prop :=
  ∀ (turns : Nat) (h : Harbor) (id : Nat) (fd : Int) (head body : List UInt8),
    buffer.length ≤ turns → (h.s id).status = .content → head.length = 4 →
    format.size head = some (h.s id).length → (h.s id).read = body.length →
    body.length < (h.s id).length → (h.s id).recvBuffer.length = (h.s id).length →
    (h.s id).recvBuffer.take body.length = body → (h.s id).size.length = 4 →
    LoopEnds h id (head ++ body ++ buffer) (afterTurn turns id fd (readContent h id buffer))

def HeaderEnds (buffer : List UInt8) : Prop :=
  ∀ (turns : Nat) (h : Harbor) (id : Nat) (fd : Int) (rest : List UInt8),
    buffer.length ≤ turns → (h.s id).status = .header → (h.s id).read = rest.length →
    rest.length < 4 → (h.s id).size.length = 4 → (h.s id).size.take rest.length = rest →
    LoopEnds h id (rest ++ buffer) (afterTurn turns id fd (readMessage h id buffer))

theorem content_ends (buffer : List UInt8)
    (shorter : ∀ other, other.length < buffer.length → HeaderEnds other) :
    ContentEnds buffer := by
  intro turns h id fd head body bound status whole size read short block kept four
  have next := split_body head (body ++ buffer) (h.s id).length whole size
  rw [← List.append_assoc] at next
  by_cases part : body.length + buffer.length < (h.s id).length
  · obtain ⟨h', turn, reading, reads⟩ :=
      readContent_part h id head body buffer status whole size read block kept four part
    rw [if_neg (by rw [List.length_append]; omega)] at next
    rw [turn]
    exact .stop next (.reading (by rwa [List.append_assoc])) reads
  · obtain ⟨h', turn, reading, reads⟩ :=
      readContent_whole h id head body buffer size read block kept four short (by omega)
    have need : (h.s id).length = body.length + ((h.s id).length - body.length) := by omega
    rw [if_pos (by rw [List.length_append]; omega), need, List.take_length_add_append,
      List.drop_length_add_append] at next
    rw [turn]
    refine .go next reads ?_
    split_ifs with nothing
    · rw [List.length_eq_zero_iff.mp nothing]
      exact .stop (next_short [] (by decide)) (.reading reading) ⟨by simp, .refl h' id⟩
    · rw [List.length_drop] at nothing
      obtain ⟨more, rfl⟩ : ∃ more, turns = more + 1 := ⟨turns - 1, by omega⟩
      obtain ⟨status, read, block⟩ := reading.fresh
      have turn' : socketTurn h' id fd (buffer.drop ((h.s id).length - body.length)) =
          readMessage h' id (buffer.drop ((h.s id).length - body.length)) := by
        rw [socketTurn, status]
      rw [afterTurn, socketLoop_succ, turn']
      exact shorter _ (by rw [List.length_drop]; omega) more h' id fd []
        (by rw [List.length_drop]; omega) status read (by decide) block rfl

theorem shortContent_ends (turns : Nat) (h : Harbor) (id : Nat) (fd : Int)
    (rest buffer : List UInt8) (short : Short rest) (status : (h.s id).status = .content)
    (length : (h.s id).length = lengthOf rest) (read : (h.s id).read = rest.length - 4)
    (fits : (h.s id).read ≤ (h.s id).length)
    (block : (h.s id).recvBuffer.length = (h.s id).length) :
    LoopEnds h id (rest ++ buffer) (afterTurn turns id fd (readContent h id buffer)) := by
  have later := short.append buffer
  have stuck := next_refused _ (.inr later)
  have four := short.1
  rw [readContent]
  split_ifs with part
  · refine .stop stuck ?_ (setSlave_reads h id _ rfl)
    rw [setSlave_self]
    refine .short later status ?_ ?_ ?_ ?_
    · rw [lengthOf_front rest buffer four, ← length]
    · simp only [read, List.length_append]
      omega
    · simp only
      omega
    · simp only
      rw [length_memcpy _ _ _ (by omega), block]
  · have small : (memcpy (h.s id).recvBuffer (h.s id).read
        (buffer.take ((h.s id).length - (h.s id).read))).length < headerCookieLength := by
      rw [length_memcpy _ _ _ (by rw [List.length_take]; omega), block, length]
      exact short.2.2
    have broken : forwardLocalMessage h (memcpy (h.s id).recvBuffer (h.s id).read
        (buffer.take ((h.s id).length - (h.s id).read))) = none := by
      unfold forwardLocalMessage
      exact if_pos small
    simp only [broken, Option.map_none]
    refine .broken ?_
    rwa [Framing.split_none format _ stuck]

theorem header_ends (buffer : List UInt8)
    (shorter : ∀ other, other.length < buffer.length → ContentEnds other) :
    HeaderEnds buffer := by
  intro turns h id fd rest bound status read short block kept
  by_cases part : rest.length + buffer.length < 4
  · obtain ⟨h', turn, reading, reads⟩ :=
      readHeader_part h id rest buffer status read block kept part
    rw [readMessage, turn]
    exact .stop (next_short _ (by rwa [List.length_append])) (.reading reading) reads
  · have joined : rest ++ buffer =
        rest ++ buffer.take (4 - rest.length) ++ buffer.drop (4 - rest.length) := by
      rw [List.append_assoc, List.take_append_drop]
    have four : (rest ++ buffer.take (4 - rest.length)).length = 4 := by
      rw [List.length_append, List.length_take]
      omega
    by_cases set : (rest ++ buffer.take (4 - rest.length)).getD 0 0 ≠ 0
    · obtain ⟨h', turn, down, reads⟩ :=
        readHeader_refused h id rest buffer read short block kept (by omega) set
      have refused : TooLong (rest ++ buffer) := by
        rw [joined]
        exact TooLong.append ⟨four.ge, set⟩ _
      rw [readMessage, turn]
      exact .stop (next_refused _ (.inl refused)) (.tooLong refused down) reads
    have zero := not_not.mp set
    obtain ⟨h', turn, status, length, read, block, four', reads⟩ :=
      readHeader_whole h id _ rest buffer read short block kept (by omega) zero rfl
    rw [joined]
    refine .after reads ?_
    rw [readMessage, turn]
    by_cases cookie : headerCookieLength ≤ lengthOf (rest ++ buffer.take (4 - rest.length))
    · have size : format.size (rest ++ buffer.take (4 - rest.length)) =
          some (lengthOf (rest ++ buffer.take (4 - rest.length))) := by
        simp only [format, zero, cookie, and_self, if_true]
      have pos : 0 < lengthOf (rest ++ buffer.take (4 - rest.length)) :=
        lt_of_lt_of_le (by decide) cookie
      split_ifs with nothing
      · rw [List.length_eq_zero_iff.mp nothing]
        refine .stop ?_ ?_ ⟨by simp, .refl h' id⟩
        · rw [split_body _ [] _ four size, if_neg (by simpa using pos.ne')]
        · exact .reading (.content _ [] status four (by rw [length]; exact size) read
            (by rw [length]; exact pos) (by rw [length]; exact block) rfl four')
      · have content := shorter (buffer.drop (4 - rest.length))
          (by rw [List.length_drop] at nothing ⊢; omega) turns h' id fd
          (rest ++ buffer.take (4 - rest.length)) [] (by rw [List.length_drop]; omega) status four
          (by rw [length]; exact size) read (by rw [length]; exact pos)
          (by rw [length]; exact block) rfl four'
        rwa [List.append_nil] at content
    · have few : Short (rest ++ buffer.take (4 - rest.length)) := ⟨four.ge, zero, by omega⟩
      split_ifs with nothing
      · rw [List.length_eq_zero_iff.mp nothing, List.append_nil]
        exact .stop (next_refused _ (.inr few))
          (.short few status length (by rw [read, four]) (by rw [read]; exact Nat.zero_le _)
            (by rw [length]; exact block)) ⟨by simp, .refl h' id⟩
      · exact shortContent_ends turns h' id fd _ _ few status length (by rw [read, four])
          (by rw [read]; exact Nat.zero_le _) (by rw [length]; exact block)

theorem link_ends (buffer : List UInt8) : HeaderEnds buffer ∧ ContentEnds buffer := by
  induction size : buffer.length using Nat.strong_induction_on generalizing buffer with
  | _ n ih =>
    constructor
    · exact header_ends buffer fun other shorter => (ih other.length (by omega) other rfl).2
    · exact content_ends buffer fun other shorter => (ih other.length (by omega) other rfl).1

theorem socketLoop_ends (turns : Nat) (h : Harbor) (id : Nat) (fd : Int)
    (rest buffer : List UInt8) (holding : Holding (h.s id) rest) (bound : buffer.length ≤ turns) :
    LoopEnds h id (rest ++ buffer) (socketLoop (turns + 1) h id fd buffer) := by
  obtain ⟨header, content⟩ := link_ends buffer
  cases holding with
  | reading reading =>
    cases reading with
    | header _ status read short block kept =>
      rw [socketLoop_succ, socketTurn, status]
      exact header turns h id fd rest bound status read short block kept
    | content head body status whole size read short block kept four =>
      rw [socketLoop_succ, socketTurn, status]
      exact content turns h id fd head body bound status whole size read short block kept four
  | tooLong refused status =>
    rw [socketLoop_succ, socketTurn, status]
    have later := refused.append buffer
    exact .stop (next_refused _ (.inl later)) (.tooLong later status) ⟨by simp, .refl h id⟩
  | short short status length read fits block =>
    rw [socketLoop_succ, socketTurn, status]
    exact shortContent_ends turns h id fd rest buffer short status length read fits block

theorem dispatchQueue_reads (h : Harbor) (id : Nat) (linked : (h.s id).fd ≠ 0) :
    ∃ h', dispatchQueue h id = some h' ∧ h'.s id = { h.s id with queue := none } ∧
      Reads h h' id [] := by
  refine ⟨_, dispatchQueue_eq h id linked, setSlave_self _ _ _, ?_, ?_⟩
  · simp [Harbor.setSlave, deliveries_append, deliveries_written]
  · exact ⟨rfl, rfl, by rw [setSlave_self], fun other different => setSlave_other _ _ _ _ different⟩

theorem socketLoop_handshake (turns : Nat) (h : Harbor) (id : Nat) (fd : Int) (remoteId : UInt8)
    (buffer : List UInt8) (same : remoteId.toNat = id) (status : (h.s id).status = .handshake)
    (wired : Wired h) (bound : buffer.length + 1 ≤ turns) :
    LoopEnds h id buffer (socketLoop (turns + 1) h id fd (remoteId :: buffer)) := by
  have linked := (wired id).linked (by simp [status])
  have marked := setSlave_reads h id { h.s id with status := .header } rfl
  obtain ⟨h', opened, slot, reads⟩ := dispatchQueue_reads
    (h.setSlave id { h.s id with status := .header }) id (by rw [setSlave_self]; exact linked)
  rw [setSlave_self] at slot
  have header : (h'.s id).status = .header ∧ (h'.s id).read = 0 ∧ (h'.s id).size.length = 4 := by
    rw [slot]
    exact ⟨rfl, (wired id).unread (.inr status), (wired id).size⟩
  obtain ⟨status', read, four⟩ := header
  have turn : socketTurn h id fd (remoteId :: buffer) =
      if buffer.length = 0 then some (h', some buffer) else readMessage h' id buffer := by
    rw [socketTurn, status]
    simp only [readHandshake, same, ne_eq, not_true_eq_false, if_false, opened, Option.bind_some]
  refine .after (marked.trans reads) ?_
  rw [socketLoop_succ, turn]
  split_ifs with nothing
  · obtain ⟨more, rfl⟩ : ∃ more, turns = more + 1 := ⟨turns - 1, by omega⟩
    exact socketLoop_ends more h' id fd [] buffer
      (.reading (.header [] status' read (by decide) four rfl)) (by omega)
  · exact (link_ends buffer).1 turns h' id fd [] (by omega) status' read (by decide) four rfl

theorem socketLoop_stranger (turns : Nat) (h : Harbor) (id : Nat) (fd : Int) (remoteId : UInt8)
    (buffer : List UInt8) (other : remoteId.toNat ≠ id) (status : (h.s id).status = .handshake) :
    ∃ h', socketLoop (turns + 1) h id fd (remoteId :: buffer) = some h' ∧
      (h'.s id).status = .down ∧ Reads h h' id [] := by
  refine ⟨_, ?_, ?_, closeHarbor_reads h id
    ("Invalid shakehand id (" ++ toString id ++ ") from fd = " ++ toString fd ++ " , harbor = " ++
      toString remoteId)⟩
  · rw [socketLoop_succ, socketTurn, status]
    simp only [readHandshake, if_pos other]
    rfl
  · rw [closeHarbor_eq, setSlave_self]

theorem data_eq (h : Harbor) (id : Nat) (fd : Int) (bytes : List UInt8)
    (slot : harborId h fd = id) (known : id ≠ 0) :
    mainloop h (.data fd bytes) =
      (socketLoop (bytes.length + 3) { h with buffers := h.buffers + 1 } id fd bytes).map
        (·.did (.free h.buffers)) := by
  have here : harborId { h with buffers := h.buffers + 1 } fd = id := slot
  simp only [mainloop, pushSocketData, here, known, if_false]

theorem Reads.freed {h h' : Harbor} {id n : Nat} {bodies : List (List UInt8)}
    (reads : Reads { h with buffers := n } h' id bodies) (buffer : Nat) :
    Reads h (h'.did (.free buffer)) id bodies := by
  refine ⟨?_, reads.aside.ctx, reads.aside.own, reads.aside.fd, reads.aside.others⟩
  simpa [Harbor.did, deliveries] using reads.delivered

theorem data_ends (h : Harbor) (id : Nat) (fd : Int) (bytes buffer : List UInt8)
    (slot : harborId h fd = id) (known : id ≠ 0)
    (loop : LoopEnds { h with buffers := h.buffers + 1 } id buffer
      (socketLoop (bytes.length + 3) { h with buffers := h.buffers + 1 } id fd bytes)) :
    LoopEnds h id buffer (mainloop h (.data fd bytes)) := by
  rw [data_eq h id fd bytes slot known]
  generalize socketLoop (bytes.length + 3) _ id fd bytes = result at loop ⊢
  cases loop with
  | holding h' holding reads => exact .holding _ holding (reads.freed h.buffers)
  | broken short => exact .broken short

-- The same for a run: `consumed` was read before, and `chunks` come next.
inductive RunEnds (h : Harbor) (id : Nat) (consumed bytes : List UInt8) : Option Harbor → Prop where
  | holding (h' : Harbor) (bodies : List (List UInt8))
      (holding : Holding (h'.s id) (Framing.split format (consumed ++ bytes)).2)
      (reads : Reads h h' id bodies)
      (all : (Framing.split format consumed).1 ++ bodies =
        (Framing.split format (consumed ++ bytes)).1) : RunEnds h id consumed bytes (some h')
  | broken (short : Short (Framing.split format (consumed ++ bytes)).2) :
      RunEnds h id consumed bytes none

theorem chunks_end (id : Nat) (fd : Int) (known : id ≠ 0) (chunks : List (List UInt8))
    (consumed : List UInt8) (h : Harbor) (slot : harborId h fd = id)
    (holding : Holding (h.s id) (Framing.split format consumed).2) :
    RunEnds h id consumed chunks.flatten
      (Transition.run mainloop h (chunks.map (Event.data fd))) := by
  induction chunks generalizing consumed h with
  | nil =>
    rw [List.flatten_nil]
    exact .holding h [] (by rwa [List.append_nil]) ⟨by simp, .refl h id⟩ (by simp)
  | cons chunk chunks ih =>
    have joined := Framing.split_append format consumed chunk
    have whole : consumed ++ (chunk ++ chunks.flatten) = consumed ++ chunk ++ chunks.flatten := by
      rw [List.append_assoc]
    have first := data_ends h id fd chunk _ slot known
      (socketLoop_ends (chunk.length + 2) _ id fd _ chunk holding (by omega))
    rw [List.flatten_cons, List.map_cons, Transition.run]
    generalize mainloop h (.data fd chunk) = result at first
    cases first with
    | broken short =>
      refine .broken ?_
      have stuck := next_refused _ (.inr (short.append chunks.flatten))
      rw [whole, Framing.split_append, joined, Framing.split_none format _ stuck]
      exact short.append chunks.flatten
    | holding middle between reads =>
      have later := ih (consumed ++ chunk) middle (by rw [reads.aside.harborId]; exact slot)
        (by rwa [joined])
      simp only
      generalize Transition.run mainloop middle (chunks.map (Event.data fd)) = final at later
      cases later with
      | broken short => exact .broken (by rwa [whole])
      | holding h' bodies holding more all =>
        refine .holding h' _ (by rwa [whole]) (reads.trans more) ?_
        rw [whole, ← all, joined, List.append_assoc]

structure Message where
  source : UInt32
  destination : UInt32
  type : UInt8
  session : UInt32
  payload : List UInt8

def Message.sent (m : Message) : HarborMsg where
  header :=
    { source := m.source
      destination := m.type.toUInt32 <<< 24 ||| m.destination &&& handleMask
      session := m.session }
  buffer := { id := 0, bytes := m.payload }

def Message.body (m : Message) : List UInt8 := m.payload ++ headerToMessage m.sent.header

def Message.received (m : Message) (id : UInt32) : Delivery where
  source := m.source
  destination := m.destination &&& handleMask ||| id <<< 24
  type := m.type.toUInt32 ||| ptypeTagDontcopy
  session := m.session
  payload := m.payload

theorem arrival_body (m : Message) (id : UInt32) : arrival id m.body = m.received id := by
  have size : m.body.length - headerCookieLength = m.payload.length := by
    rw [Message.body, List.length_append, length_headerToMessage]
    exact Nat.add_sub_cancel _ _
  have cookie : m.body.drop m.payload.length = headerToMessage m.sent.header := by
    rw [Message.body, List.drop_left]
  have payload : m.body.take m.payload.length = m.payload := by
    rw [Message.body, List.take_left]
  simp only [arrival, size, cookie, payload, messageToHeader_headerToMessage, Message.sent,
    tagged_type, tagged_low, Message.received]

def linkStream (sender : UInt32) (messages : List Message) : List UInt8 :=
  sender.toUInt8 :: messages.flatMap fun m => m.sent.frame

def Small (m : Message) : Prop := m.payload.length + headerCookieLength < 2 ^ 24

theorem split_frames (messages : List Message) (small : ∀ m ∈ messages, Small m) :
    Framing.split format (messages.flatMap fun m => m.sent.frame) =
      (messages.map Message.body, []) := by
  have length : ∀ m : Message, m.body.length = m.payload.length + headerCookieLength := by
    intro m
    rw [Message.body, List.length_append, length_headerToMessage]
    rfl
  have known : ∀ m ∈ messages,
      format.size (toBigendian (m.payload.length + headerCookieLength).toUInt32) =
        some m.body.length := by
    intro m inside
    rw [length]
    exact size_toBigendian _ (Nat.le_add_left _ _) (small m inside)
  have framed := Framing.split_packets format messages
    (fun m => toBigendian (m.payload.length + headerCookieLength).toUInt32) Message.body
    (fun _ _ => rfl) known []
  rw [Framing.split_none format [] (next_short [] (by decide))] at framed
  simpa [HarborMsg.frame, Message.sent, Message.body] using framed

theorem link_delivers {allowed : Harbor → Event → Prop} (ctx : List Effect → UInt32 → Bool)
    (own slave : UInt32) (h : Harbor)
    (reached : Transition.Path mainloop allowed (harborCreate ctx own slave) h)
    (sender : UInt32) (fd : Int) (peer : sender.toUInt8 ≠ 0)
    (slot : harborId h fd = sender.toUInt8.toNat)
    (status : (h.s sender.toUInt8.toNat).status = .handshake)
    (messages : List Message) (small : ∀ m ∈ messages, Small m) (chunks : List (List UInt8))
    (nonempty : ∀ chunk ∈ chunks, chunk ≠ []) (cut : chunks.flatten = linkStream sender messages) :
    ∃ h', Transition.run mainloop h (chunks.map (Event.data fd)) = some h' ∧
      deliveries h'.log = deliveries h.log ++ messages.map fun m => m.received h.id := by
  have known : sender.toUInt8.toNat ≠ 0 := fun zero => peer (UInt8.toNat_inj.mp zero)
  have wired := reached_wired reached
  cases chunks with
  | nil => contradiction
  | cons chunk chunks =>
    cases chunk with
    | nil => exact absurd rfl (nonempty [] (by simp))
    | cons byte buffer =>
      rw [linkStream, List.flatten_cons, List.cons_append, List.cons.injEq] at cut
      obtain ⟨rfl, cut⟩ := cut
      have whole := split_frames messages small
      rw [← cut] at whole
      have first := data_ends h _ fd (sender.toUInt8 :: buffer) _ slot known
        (socketLoop_handshake (buffer.length + 3) _ _ fd _ buffer rfl status wired (by omega))
      rw [List.map_cons, Transition.run]
      generalize mainloop h (.data fd (sender.toUInt8 :: buffer)) = result at first
      cases first with
      | broken short =>
        have later := short.append chunks.flatten
        have stuck := next_refused _ (.inr later)
        rw [Framing.split_append, Framing.split_none format _ stuck, Prod.mk.injEq] at whole
        have nothing : (Framing.split format buffer).2 ++ chunks.flatten = [] := whole.2
        rw [nothing] at later
        exact absurd later.1 (by decide)
      | holding middle holding reads =>
        have later := chunks_end _ fd known chunks buffer middle
          (by rw [reads.aside.harborId]; exact slot) holding
        simp only
        generalize Transition.run mainloop middle (chunks.map (Event.data fd)) = final at later
        cases later with
        | broken short =>
          rw [whole] at short
          exact absurd short.1 (Nat.not_succ_le_zero 3)
        | holding h' bodies _ more all =>
          refine ⟨h', rfl, ?_⟩
          have delivered := (reads.trans more).delivered
          rw [all, whole, List.map_map] at delivered
          rw [delivered]
          simp [Function.comp_def, arrival_body]

-- Harbor 1 after `S 7 2`, and a message of harbor 2 in three pieces.
def connecting : Harbor :=
  (mainloop (harborCreate (fun _ _ => true) 1 9) (.command [0x53, 0x20, 0x37, 0x20, 0x32] 9)).getD
    (harborCreate (fun _ _ => true) 1 9)

def greeting : Message :=
  { source := 0x2000005, destination := 0x1000003, type := 10, session := 1, payload := [65] }

def pieces : List (List UInt8) :=
  [[2, 0, 0], [0, 13, 65, 2], [0, 0, 5, 10, 0, 0, 3, 0, 0, 0, 1]]

theorem greeting_delivered :
    ∃ h, Transition.run mainloop connecting (pieces.map (Event.data 7)) = some h ∧
      deliveries h.log = [greeting.received 1] := by
  have reached : Transition.Path mainloop (fun _ _ => True) (harborCreate (fun _ _ => true) 1 9)
      connecting :=
    .tail (.command [0x53, 0x20, 0x37, 0x20, 0x32] 9) (.refl _) trivial rfl
  exact link_delivers _ 1 9 connecting reached 2 7 (by decide) rfl rfl [greeting]
    (by simp [Small, greeting, headerCookieLength]) pieces (by decide) rfl

end Pskynet.Harbor
