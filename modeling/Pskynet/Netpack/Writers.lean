import Pskynet.Netpack.Reassembly

set_option autoImplicit false

namespace Pskynet.Netpack

open Memory

def smallString : Nat := 2048

def tooLong (len : Nat) : String :=
  "Invalid size (too long) of data : " ++ toString (Int32.ofNat len).toInt

def stringBlock (len : Nat) : List UInt8 :=
  malloc (if len ≤ smallString then smallString + 2 else len + 2)

def lpack (payload : List UInt8) : Except String (List UInt8) :=
  let len := payload.length
  if 0x10000 < len then .error (tooLong len)
  else .ok (memcpy (memcpy (malloc (len + 2)) 0 (writeSize len)) 2 payload)

def lpackString (payload : List UInt8) : Except String (List UInt8) :=
  let len := payload.length
  if 0x10000 < len then .error (tooLong len)
  else .ok ((memcpy (memcpy (stringBlock len) 0 (writeSize len)) 2 payload).take (len + 2))

def lpackPadding (cookie content : List UInt8) : Except String (List UInt8) :=
  let len := cookie.length + content.length
  if 0x10000 < len then .error (tooLong len)
  else
    let buffer := memcpy (memcpy (stringBlock len) 0 (writeSize len)) 2 content
    .ok ((memcpy buffer (2 + content.length) cookie).take (len + 2))

def Receivable (payload : List UInt8) (packed : Except String (List UInt8)) : Prop :=
  ∀ bytes, packed = .ok bytes → ∀ events : List (Int × List UInt8),
    (∀ event ∈ events, event.2 ≠ []) → ∀ fd, stream events fd = bytes →
      (Consumer.new.chunks events).payloads fd = [payload] ∧
        ¬HasEntry (Consumer.new.chunks events) fd

theorem memcpy_size (block : List UInt8) (len : Nat) (body : List UInt8) :
    memcpy (memcpy block 0 (writeSize len)) 2 body = memcpy block 0 (writeSize len ++ body) :=
  memcpy_memcpy block (writeSize len) body 0 (Nat.zero_le _)

theorem length_frame (payload : List UInt8) : (frame payload).length = payload.length + 2 := by
  rw [frame, List.length_append, Nat.add_comm]
  rfl

theorem take_frame (block payload : List UInt8) (room : payload.length + 2 ≤ block.length) :
    (memcpy block 0 (frame payload)).take (payload.length + 2) = frame payload := by
  have length := length_frame payload
  have front := take_memcpy block (frame payload) 0 (by omega)
  rw [length, Nat.zero_add, List.take_zero, List.nil_append] at front
  exact front

theorem length_stringBlock (len : Nat) : len + 2 ≤ (stringBlock len).length := by
  unfold stringBlock
  rw [length_malloc]
  split_ifs <;> omega

theorem lpack_frame (payload : List UInt8) (fits : payload.length ≤ 0x10000) :
    lpack payload = .ok (frame payload) := by
  have length : (malloc (payload.length + 2)).length = payload.length + 2 := length_malloc _
  have whole := take_frame (malloc (payload.length + 2)) payload length.ge
  rw [List.take_of_length_le] at whole
  · unfold lpack
    simp only
    rw [if_neg (by omega), memcpy_size]
    exact congrArg _ whole
  · have framed := length_frame payload
    rw [length_memcpy _ _ _ (by omega), length]

theorem lpackString_frame (payload : List UInt8) (fits : payload.length ≤ 0x10000) :
    lpackString payload = .ok (frame payload) := by
  unfold lpackString
  simp only
  rw [if_neg (by omega), memcpy_size]
  exact congrArg _ (take_frame _ payload (length_stringBlock _))

theorem lpackPadding_frame (cookie content : List UInt8)
    (fits : cookie.length + content.length ≤ 0x10000) :
    lpackPadding cookie content = .ok (frame (content ++ cookie)) := by
  have length : (content ++ cookie).length = cookie.length + content.length := by
    rw [List.length_append, Nat.add_comm]
  have room := length_stringBlock (cookie.length + content.length)
  have whole := take_frame (stringBlock (cookie.length + content.length)) (content ++ cookie)
    (by omega)
  have joined := memcpy_memcpy (stringBlock (cookie.length + content.length))
    (writeSize (cookie.length + content.length) ++ content) cookie 0 (Nat.zero_le _)
  have start : 0 + (writeSize (cookie.length + content.length) ++ content).length =
      2 + content.length := by
    rw [Nat.zero_add, List.length_append]
    rfl
  unfold lpackPadding
  simp only
  rw [if_neg (by omega), memcpy_size]
  rw [start, List.append_assoc] at joined
  unfold frame at whole ⊢
  rw [length] at whole ⊢
  rw [joined]
  exact congrArg _ whole

theorem too_long_receivable (payload : List UInt8) (text : String) :
    Receivable payload (.error text) := by
  intro bytes packed
  cases packed

theorem split_frame (payload : List UInt8) (size : payload.length < 65536) :
    Framing.split format (frame payload) = ([payload], []) := by
  have framed := split_frames [payload] [] (by simpa using size)
  rw [split_nil] at framed
  simpa using framed

theorem frame_receivable (payload : List UInt8) (size : payload.length < 65536) :
    Receivable payload (.ok (frame payload)) := by
  intro bytes packed events nonempty fd sent
  have received := chunks_received events .new _ nonempty new_received
  have payloads := received.payloads fd
  have entry := received.entry fd
  rw [List.nil_append, sent, ← Except.ok.inj packed, split_frame payload size] at payloads entry
  refine ⟨payloads, ?_⟩
  rw [hasEntry_iff _ fd [] received.hashed entry]
  exact fun some_ => some_ rfl

theorem frame_not_receivable (payload : List UInt8) (size : payload.length = 0x10000) :
    ¬Receivable payload (.ok (frame payload)) := by
  intro receivable
  have written : frame payload = 0 :: 0 :: payload := by
    rw [frame, size]
    rfl
  have first := (receivable _ rfl [(0, frame payload)] (by simp [written]) 0 (by simp [stream])).1
  have received := chunks_received [(0, frame payload)] .new _ (by simp [written]) new_received
  have payloads := received.payloads 0
  have sent : stream [(0, frame payload)] 0 = 0 :: 0 :: payload := by simp [stream, written]
  have zero : readSize 0 0 = 0 := rfl
  rw [first, List.nil_append, sent, split_whole 0 0 payload (by omega), zero, List.take_zero]
    at payloads
  rw [(List.cons.inj payloads).1] at size
  cases size

theorem receivable_iff (payload : List UInt8) (packed : Except String (List UInt8))
    (error : 0x10000 < payload.length → ∃ text, packed = .error text)
    (written : payload.length ≤ 0x10000 → packed = .ok (frame payload)) :
    Receivable payload packed ↔ payload.length ≠ 0x10000 := by
  rcases Nat.lt_trichotomy payload.length 0x10000 with short | same | long
  · rw [written short.le]
    exact iff_of_true (frame_receivable payload short) short.ne
  · rw [written same.le]
    exact iff_of_false (frame_not_receivable payload same) (not_not.mpr same)
  · obtain ⟨text, refused⟩ := error long
    rw [refused]
    exact iff_of_true (too_long_receivable payload text) long.ne'

theorem packed_receivable_iff (cookie content payload : List UInt8) :
    (Receivable payload (lpack payload) ↔ payload.length ≠ 0x10000) ∧
      (Receivable payload (lpackString payload) ↔ payload.length ≠ 0x10000) ∧
      (Receivable (content ++ cookie) (lpackPadding cookie content) ↔
        cookie.length + content.length ≠ 0x10000) := by
  refine ⟨receivable_iff payload _ ?_ (lpack_frame payload),
    receivable_iff payload _ ?_ (lpackString_frame payload), ?_⟩
  · exact fun long => ⟨_, if_pos long⟩
  · exact fun long => ⟨_, if_pos long⟩
  · have length : (content ++ cookie).length = cookie.length + content.length := by
      rw [List.length_append, Nat.add_comm]
    rw [← length]
    refine receivable_iff (content ++ cookie) _ ?_ ?_
    · rw [length]
      exact fun long => ⟨_, if_pos long⟩
    · rw [length]
      exact lpackPadding_frame cookie content

theorem limit_not_receivable :
    ¬Receivable (List.replicate 0x10000 7) (lpackString (List.replicate 0x10000 7)) := by
  have size : (List.replicate 0x10000 (7 : UInt8)).length = 0x10000 := List.length_replicate
  rw [lpackString_frame _ size.le]
  exact frame_not_receivable _ size

end Pskynet.Netpack
