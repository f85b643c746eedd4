import Pskynet.Harbor.Link
import Pskynet.Server.Send

set_option autoImplicit false

namespace Pskynet.Harbor

open Server Memory Transition

theorem Reading.not_refused {s : Slave} {rest : List UInt8} (reading : Reading s rest) :
    ¬(TooLong rest ∨ Short rest) := by
  intro refused
  have four : 4 ≤ rest.length := refused.elim And.left And.left
  cases reading with
  | header _ _ _ short => omega
  | content head body _ whole size =>
    obtain ⟨zero, length, cookie⟩ := format_size head _ size
    rw [← length] at cookie
    rcases refused with ⟨_, set⟩ | ⟨_, _, short⟩
    · rw [List.getD_append head body 0 0 (by omega)] at set
      exact set zero
    · rw [lengthOf_front head body whole.ge] at short
      omega

theorem Holding.open_of_short {s : Slave} {rest : List UInt8} (holding : Holding s rest)
    (short : Short rest) : s.status = .content := by
  cases holding with
  | reading reading => exact absurd (.inr short) reading.not_refused
  | tooLong refused => exact absurd short.2.1 refused.2
  | short _ status => exact status

theorem Holding.down_iff {s : Slave} {rest : List UInt8} (holding : Holding s rest) :
    s.status = .down ↔ TooLong rest := by
  cases holding with
  | reading reading =>
    refine ⟨fun down => ?_, fun refused => absurd (.inl refused) reading.not_refused⟩
    cases reading with
    | header _ status => simp [status] at down
    | content _ _ status => simp [status] at down
  | tooLong refused status => exact ⟨fun _ => refused, fun _ => status⟩
  | short short status =>
    refine ⟨fun down => by simp [status] at down, fun refused => absurd short.2.1 refused.2⟩

def frames (s : Slave) (id : Nat) (stream : List UInt8) : List UInt8 :=
  if s.status = .handshake then
    match stream with
    | [] => []
    | remoteId :: rest => if remoteId.toNat = id then rest else []
  else stream

def Slave.Opening (s : Slave) : Prop := s.status = .handshake ∨ s.status = .header ∧ s.read = 0

-- `forward_local_messsage` was not called with less than a cookie, and a frame that has less has
-- closed the link.
structure Refuses (id : Nat) (stream : List UInt8) (result : Option Harbor) : Prop where
  forwards : result.isSome
  closes : Short (Framing.split format stream).2 → ∀ h, result = some h → (h.s id).status = .down

theorem RunEnds.refuses_iff {h : Harbor} {id : Nat} {bytes : List UInt8} {result : Option Harbor}
    (ends : RunEnds h id [] bytes result) :
    Refuses id bytes result ↔ ¬Short (Framing.split format bytes).2 := by
  cases ends with
  | broken short =>
    refine ⟨fun refuses => ?_, fun other => absurd short other⟩
    exact absurd refuses.forwards (by simp)
  | holding h' _ holding =>
    constructor
    · intro refuses short
      have down := refuses.closes short h' rfl
      rw [holding.open_of_short short] at down
      contradiction
    · intro other
      exact ⟨rfl, fun short => absurd short other⟩

theorem RunEnds.after {h h' : Harbor} {id : Nat} {bytes more : List UInt8}
    {bodies : List (List UInt8)} {result : Option Harbor} (reads : Reads h h' id bodies)
    (all : bodies = (Framing.split format bytes).1) (ends : RunEnds h' id bytes more result) :
    RunEnds h id [] (bytes ++ more) result := by
  cases ends with
  | broken short => exact .broken short
  | holding last later holding more all' =>
    refine .holding last _ holding (reads.trans more) ?_
    rw [Framing.split_none format [] (next_short [] (by decide)), all]
    exact all'

theorem down_ignores (id : Nat) (fd : Int) (known : id ≠ 0) (chunks : List (List UInt8))
    (h : Harbor) (slot : harborId h fd = id) (down : (h.s id).status = .down) :
    ∃ h', run mainloop h (chunks.map (Event.data fd)) = some h' ∧ (h'.s id).status = .down := by
  induction chunks generalizing h with
  | nil => exact ⟨h, rfl, down⟩
  | cons chunk chunks ih =>
    have ignored : mainloop h (.data fd chunk) =
        some (Harbor.did { h with buffers := h.buffers + 1 } (.free h.buffers)) := by
      rw [data_eq h id fd chunk slot known, socketLoop_succ, socketTurn, down]
      rfl
    rw [List.map_cons, run, ignored]
    exact ih _ slot down

theorem empty_not_short : ¬Short (Framing.split format []).2 := by
  rw [Framing.split_none format [] (next_short [] (by decide))]
  decide

theorem short_frames_refused {allowed : Harbor → Event → Prop} (ctx : List Effect → UInt32 → Bool)
    (own slave : UInt32) (h : Harbor)
    (reached : Path mainloop allowed (harborCreate ctx own slave) h) (id : Nat) (fd : Int)
    (known : id ≠ 0) (slot : harborId h fd = id) (opening : (h.s id).Opening)
    (chunks : List (List UInt8)) (nonempty : ∀ chunk ∈ chunks, chunk ≠ []) :
    Refuses id (frames (h.s id) id chunks.flatten)
        (run mainloop h (chunks.map (Event.data fd))) ↔
      ¬Short (Framing.split format (frames (h.s id) id chunks.flatten)).2 := by
  have wired := reached_wired reached
  rcases opening with status | ⟨status, read⟩
  · unfold frames
    rw [if_pos status]
    cases chunks with
    | nil => exact iff_of_true ⟨rfl, fun short => absurd short empty_not_short⟩ empty_not_short
    | cons chunk chunks =>
      obtain ⟨remoteId, buffer, rfl⟩ := List.exists_cons_of_ne_nil (nonempty chunk (by simp))
      simp only [List.flatten_cons, List.cons_append, List.map_cons]
      split_ifs with same
      · have first := data_ends h id fd (remoteId :: buffer) _ slot known
          (socketLoop_handshake (buffer.length + 3) _ id fd remoteId buffer same status wired
            (by omega))
        refine RunEnds.refuses_iff (h := h) ?_
        rw [run]
        generalize mainloop h (.data fd (remoteId :: buffer)) = result at first
        cases first with
        | broken short =>
          refine .broken ?_
          have later := short.append chunks.flatten
          rw [List.nil_append, Framing.split_append,
            Framing.split_none format _ (next_refused _ (.inr later))]
          exact later
        | holding middle holding reads =>
          exact (chunks_end id fd known chunks buffer middle
            (by rw [reads.aside.harborId]; exact slot) holding).after reads rfl
      · obtain ⟨middle, turn, down, reads⟩ := socketLoop_stranger (buffer.length + 3)
          { h with buffers := h.buffers + 1 } id fd remoteId buffer same status
        have freed := reads.freed h.buffers
        obtain ⟨h', done, _⟩ := down_ignores id fd known chunks (middle.did (.free h.buffers))
          (by rw [freed.aside.harborId]; exact slot) down
        rw [run, data_eq h id fd _ slot known]
        rw [List.length_cons, turn]
        simp only [Option.map_some, done]
        exact iff_of_true ⟨rfl, fun short => absurd short empty_not_short⟩ empty_not_short
  · have whole : frames (h.s id) id chunks.flatten = chunks.flatten := by
      unfold frames
      exact if_neg (by simp [status])
    rw [whole]
    refine RunEnds.refuses_iff (h := h) (chunks_end id fd known chunks [] h slot ?_)
    rw [Framing.split_none format [] (next_short [] (by decide))]
    exact .reading (.header [] status read (by decide) (wired id).size rfl)

theorem greeting_accepted :
    Refuses 2 (frames (connecting.s 2) 2 pieces.flatten)
      (run mainloop connecting (pieces.map (Event.data 7))) := by
  have reached : Path mainloop (fun _ _ => True) (harborCreate (fun _ _ => true) 1 9) connecting :=
    .tail (.command [0x53, 0x20, 0x37, 0x20, 0x32] 9) (.refl _) trivial rfl
  refine (short_frames_refused _ 1 9 connecting reached 2 7 (by decide) rfl (.inl rfl) pieces
    (by decide)).mpr ?_
  have whole : frames (connecting.s 2) 2 pieces.flatten =
      [greeting].flatMap fun m => m.sent.frame := rfl
  rw [whole, split_frames [greeting] (by simp [Small, greeting, headerCookieLength])]
  decide

theorem short_frame_accepted :
    run mainloop connecting ([[2], [0, 0, 0, 5], [1, 2, 3, 4, 5]].map (Event.data 7)) = none ∧
      ∃ h, run mainloop connecting ([[2], [0, 0, 0, 5]].map (Event.data 7)) = some h ∧
        (h.s 2).status = .content ∧ (h.s 2).length = 5 :=
  ⟨rfl, _, rfl, rfl, rfl⟩

-- The call of the service as `mainloop` reads it. The type comes from the top byte of a size.
def outgoing (call : Sending.Call) : Option Event :=
  match call.data with
  | .bytes _ => none
  | .remote rmsg =>
      if remote : (UInt32.ofBitVec call.type).toUInt8.toUInt32 ≠ ptypeSocket then
        some (.remote call.source rmsg.handle (toName (rmsg.name.getD [])) ⟨_, remote⟩
          (UInt32.ofBitVec call.session) ((rmsg.message.getD []).take rmsg.sz.toNat))
      else none

theorem outgoing_remote (call : Sending.Call) (rmsg : Sending.RemoteMessage) (event : Event)
    (carries : call.data = .remote rmsg) (handed : outgoing call = some event) :
    ∃ name tag id, event = .remote call.source rmsg.handle name tag id
      ((rmsg.message.getD []).take rmsg.sz.toNat) := by
  simp only [outgoing, carries] at handed
  split_ifs at handed
  exact ⟨_, _, _, (Option.some.inj handed).symm⟩

theorem skynetHarborSend_pushed (node : Sending.Node) (rmsg : Sending.RemoteMessage)
    (source : UInt32) (session given : Sending.CInt) (remote : Nat) (parcel : Sending.Parcel)
    (pushed : Sending.skynetHarborSend node rmsg source session =
      some (.pushed remote parcel given)) :
    parcel.data = .remote { rmsg with sz := Sending.packedSize rmsg.sz } := by
  simp only [Sending.skynetHarborSend] at pushed
  split_ifs at pushed
  simp only [Option.map_eq_some_iff, Sending.Sent.pushed.injEq] at pushed
  obtain ⟨_, _, _, rfl, _⟩ := pushed
  rfl

theorem accepted_outgoing (node : Sending.Node) (context : Sending.Sender)
    (source destination : UInt32) (type session given : Sending.CInt) (payload : List UInt8)
    (sz : Sending.SizeT) (size : sz.toNat = payload.length) (remote : Nat)
    (parcel : Sending.Parcel) (call : Sending.Call) (event : Event) (nowhere : destination ≠ 0)
    (away : Sending.skynetHarborMessageIsremote node destination)
    (accepted : Sending.skynetSend node context source destination type session (some payload) sz =
      some (.pushed remote parcel given))
    (called : Sending.dispatchMessage node remote parcel = some call)
    (handed : outgoing call = some event) :
    payload.length < 2 ^ 24 ∧ ∃ sender name tag id,
      event = .remote sender destination name tag id payload := by
  unfold Sending.skynetSend at accepted
  by_cases large : Sending.packedSize sz ≠ sz
  · rw [if_pos large] at accepted
    simp at accepted
  rw [if_neg large] at accepted
  have fits := not_not.mp large
  cases filtered : Sending.filterArgs context type session sz with
  | none =>
    rw [filtered] at accepted
    contradiction
  | some result =>
    obtain ⟨after, packed, later⟩ := result
    have header : packed = Sending.packSize sz (type &&& 0xff) := by
      simp only [Sending.filterArgs] at filtered
      split_ifs at filtered <;> simp only [Option.some.injEq, Prod.mk.injEq] at filtered <;>
        exact filtered.2.1.symm
    rw [filtered, Option.bind_some] at accepted
    simp only [nowhere, away, if_false, if_true] at accepted
    have carries := skynetHarborSend_pushed node _ _ _ _ remote parcel accepted
    have same : call.data = parcel.data := by
      simp only [Sending.dispatchMessage] at called
      split_ifs at called
      rw [← Option.some.inj called]
    obtain ⟨name, tag, id, sent⟩ := outgoing_remote call _ event (same.trans carries) handed
    refine ⟨?_, call.source, name, tag, id, sent.trans ?_⟩
    · rw [← size]
      exact (Sending.packedSize_eq_iff sz).mp fits
    · rw [header, Sending.packedSize_packSize, fits, size, Option.getD_some,
        List.take_of_length_le le_rfl]

theorem high_bits (destination : UInt32) :
    destination &&& ~~~handleMask = destination >>> 24 <<< 24 := by
  have mask : handleMask.toBitVec = (BitVec.allOnes 24).setWidth 32 := rfl
  rw [← UInt32.toBitVec_inj, UInt32.toBitVec_and, UInt32.toBitVec_not, mask,
    UInt32.toBitVec_shiftLeft, UInt32.toBitVec_shiftRight]
  change _ = (destination.toBitVec >>> 24) <<< 24
  ext i inside
  simp only [BitVec.getElem_and, BitVec.getElem_not, BitVec.getElem_setWidth,
    BitVec.getLsbD_allOnes, BitVec.getElem_shiftLeft, BitVec.getElem_ushiftRight]
  by_cases low : i < 24
  · simp [low]
  · simp only [low, decide_false, Bool.not_false, Bool.and_true, Bool.true_and]
    rw [Nat.add_sub_cancel' (by omega), ← BitVec.getLsbD_eq_getElem]

theorem destination_elsewhere (own destination : UInt32) (node : Sending.Node)
    (same : node.harbor = own <<< 24)
    (away : Sending.skynetHarborMessageIsremote node destination) : destination >>> 24 ≠ own := by
  rintro rfl
  simp [Sending.skynetHarborMessageIsremote, same, high_bits] at away

theorem remote_written (own : Harbor) (sender destination : UInt32) (name : Name) (tag : RemoteType)
    (id : UInt32) (payload : List UInt8) (nowhere : destination ≠ 0)
    (elsewhere : destination >>> 24 ≠ own.id)
    (linked : (own.s (destination >>> 24).toNat).fd ≠ 0)
    (shaken : (own.s (destination >>> 24).toNat).status ≠ .handshake) :
    ∃ out, mainloop own (.remote sender destination name tag id payload) = some out ∧
      out.log = own.log ++
        [.write (own.s (destination >>> 24).toNat).fd
            (Message.sent ⟨sender, destination, tag, id, payload⟩).frame (some own.buffers),
          .free own.buffers] := by
  have written : remoteSendHandle { own with buffers := own.buffers + 1 } sender destination tag id
      ⟨own.buffers, payload⟩ =
        (Harbor.did { own with buffers := own.buffers + 1 }
          (.write (own.s (destination >>> 24).toNat).fd
            (Message.sent ⟨sender, destination, tag, id, payload⟩).frame (some own.buffers)),
          false) := by
    unfold remoteSendHandle
    simp only [elsewhere, linked, shaken, or_self, if_false]
    rfl
  have done : mainloop own (.remote sender destination name tag id payload) =
      some ((Harbor.did { own with buffers := own.buffers + 1 }
        (.write (own.s (destination >>> 24).toNat).fd
          (Message.sent ⟨sender, destination, tag, id, payload⟩).frame (some own.buffers))).did
        (.free own.buffers)) := by
    simp only [mainloop, nowhere, if_false, written]
    rfl
  exact ⟨_, done, by simp [Harbor.did]⟩

theorem split_too_long (m : Message) (fits : m.payload.length < 2 ^ 24)
    (large : ¬m.payload.length + headerCookieLength < 2 ^ 24) : TooLong m.sent.frame := by
  have value : (m.payload.length + headerCookieLength).toUInt32.toNat =
      m.payload.length + headerCookieLength := by
    rw [Nat.toUInt32_eq, UInt32.toNat_ofNat', Nat.mod_eq_of_lt]
    simp only [headerCookieLength]
    omega
  refine ⟨by simp [HarborMsg.frame, toBigendian], ?_⟩
  change ((m.payload.length + headerCookieLength).toUInt32 >>> 24).toUInt8 ≠ 0
  intro zero
  have none_ : ((m.payload.length + headerCookieLength).toUInt32 >>> 24).toUInt8.toNat = 0 := by
    rw [zero]
    rfl
  rw [UInt32.toNat_toUInt8, Words.toNat_shiftRight_lt _ 24 (by decide), value] at none_
  simp only [headerCookieLength] at large none_
  change _ / 2 ^ 24 % 2 ^ 8 = 0 at none_
  omega

theorem frame_read {allowed : Harbor → Event → Prop} (ctx : List Effect → UInt32 → Bool)
    (own slave : UInt32) (h : Harbor)
    (reached : Path mainloop allowed (harborCreate ctx own slave) h) (id : Nat) (fd : Int)
    (known : id ≠ 0) (slot : harborId h fd = id) (status : (h.s id).status = .header)
    (read : (h.s id).read = 0) (m : Message) (fits : m.payload.length < 2 ^ 24)
    (chunks : List (List UInt8)) (cut : chunks.flatten = m.sent.frame) :
    ∃ h', run mainloop h (chunks.map (Event.data fd)) = some h' ∧
      if m.payload.length + headerCookieLength < 2 ^ 24 then
        deliveries h'.log = deliveries h.log ++ [m.received h.id] ∧ (h'.s id).status = .header
      else deliveries h'.log = deliveries h.log ∧ (h'.s id).status = .down := by
  have nothing : Framing.split format [] = ([], []) :=
    Framing.split_none format [] (next_short [] (by decide))
  have ends := chunks_end id fd known chunks [] h slot (by
    rw [nothing]
    exact .reading (.header [] status read (by decide) (reached_wired reached id).size rfl))
  rw [cut] at ends
  generalize run mainloop h (chunks.map (Event.data fd)) = result at ends
  by_cases small : m.payload.length + headerCookieLength < 2 ^ 24
  · have split : Framing.split format ([] ++ m.sent.frame) = ([m.body], []) := by
      simpa using split_frames [m] (by simpa [Small] using small)
    cases ends with
    | broken short =>
      rw [split] at short
      exact absurd short.1 (Nat.not_succ_le_zero 3)
    | holding h' bodies holding reads all =>
      rw [split, nothing] at all
      rw [split] at holding
      refine ⟨h', rfl, ?_⟩
      rw [if_pos small]
      have delivered := reads.delivered
      rw [show bodies = [m.body] from all, List.map_singleton, arrival_body] at delivered
      refine ⟨delivered, ?_⟩
      cases holding with
      | reading reading => exact reading.fresh.1
      | tooLong refused => exact absurd refused.1 (Nat.not_succ_le_zero 3)
      | short short => exact absurd short.1 (Nat.not_succ_le_zero 3)
  · have refused := split_too_long m fits small
    have split : Framing.split format ([] ++ m.sent.frame) = ([], m.sent.frame) :=
      Framing.split_none format _ (next_refused _ (.inl refused))
    cases ends with
    | broken short =>
      rw [split] at short
      exact absurd short.2.1 refused.2
    | holding h' bodies holding reads all =>
      rw [split, nothing] at all
      rw [split] at holding
      refine ⟨h', rfl, ?_⟩
      rw [if_neg small]
      have delivered := reads.delivered
      rw [show bodies = [] from all] at delivered
      exact ⟨by simpa using delivered, holding.down_iff.mpr refused⟩

structure Crosses (before after : Harbor) (id : Nat) (payload : List UInt8) : Prop where
  delivered : ∃ d, deliveries after.log = deliveries before.log ++ [d] ∧ d.payload = payload
  open_ : (after.s id).status = .header

theorem accepted_size_crosses {allowed : Harbor → Event → Prop} (node : Sending.Node)
    (context : Sending.Sender) (source destination : UInt32) (type session given : Sending.CInt)
    (payload : List UInt8) (sz : Sending.SizeT) (size : sz.toNat = payload.length) (remote : Nat)
    (parcel : Sending.Parcel) (call : Sending.Call) (event : Event)
    (away : Sending.skynetHarborMessageIsremote node destination)
    (accepted : Sending.skynetSend node context source destination type session (some payload) sz =
      some (.pushed remote parcel given))
    (called : Sending.dispatchMessage node remote parcel = some call)
    (handed : outgoing call = some event) (own : Harbor) (same : node.harbor = own.id <<< 24)
    (linked : (own.s (destination >>> 24).toNat).fd ≠ 0)
    (shaken : (own.s (destination >>> 24).toNat).status ≠ .handshake)
    (ctx : List Effect → UInt32 → Bool) (peerId slave : UInt32) (peer : Harbor)
    (reached : Path mainloop allowed (harborCreate ctx peerId slave) peer) (id : Nat) (fd : Int)
    (known : id ≠ 0) (slot : harborId peer fd = id) (status : (peer.s id).status = .header)
    (read : (peer.s id).read = 0) :
    ∃ out frame, mainloop own event = some out ∧
      out.log = own.log ++
        [.write (own.s (destination >>> 24).toNat).fd frame (some own.buffers),
          .free own.buffers] ∧
      ∀ chunks : List (List UInt8), chunks.flatten = frame →
        ∃ after, run mainloop peer (chunks.map (Event.data fd)) = some after ∧
          (Crosses peer after id payload ↔ sz.toNat + headerCookieLength < 2 ^ 24) := by
  have nowhere : destination ≠ 0 := by
    rintro rfl
    simp [Sending.skynetHarborMessageIsremote] at away
  obtain ⟨fits, sender, name, tag, number, rfl⟩ := accepted_outgoing node context source destination
    type session given payload sz size remote parcel call event nowhere away accepted called handed
  obtain ⟨out, wrote, log⟩ := remote_written own sender destination name tag number payload nowhere
    (destination_elsewhere own.id destination node same away) linked shaken
  refine ⟨out, _, wrote, log, ?_⟩
  intro chunks cut
  obtain ⟨after, done, result⟩ := frame_read ctx peerId slave peer reached id fd known slot status
    read ⟨sender, destination, tag, number, payload⟩ fits chunks cut
  refine ⟨after, done, ?_⟩
  rw [size]
  split_ifs at result with small
  · exact iff_of_true ⟨⟨_, result.1, rfl⟩, result.2⟩ small
  · refine iff_of_false ?_ small
    intro crosses
    rw [crosses.open_] at result
    exact absurd result.2 (by decide)

def farNode : Sending.Node where
  mgr := .new 2
  harbor := 0x2000000
  remote := some 5
  callback := fun _ => true

def dialing : Harbor :=
  (mainloop (harborCreate (fun _ _ => true) 2 9) (.command [0x41, 0x20, 0x37, 0x20, 0x31] 9)).getD
    (harborCreate (fun _ _ => true) 2 9)

def listening : Harbor := (mainloop connecting (.data 7 [2])).getD connecting

theorem listening_reached : Path mainloop (fun _ _ => True) (harborCreate (fun _ _ => true) 1 9)
    listening :=
  .tail (.data 7 [2]) (.tail (.command [0x53, 0x20, 0x37, 0x20, 0x32] 9) (.refl _) trivial rfl)
    trivial rfl

theorem one_byte_crosses :
    ∃ out frame, mainloop dialing
        (.remote 0x2000005 0x1000003 (toName []) 10 0 [65]) = some out ∧
      out.log = dialing.log ++ [.write 7 frame (some 0), .free 0] ∧
      ∀ chunks : List (List UInt8), chunks.flatten = frame →
        ∃ after, run mainloop listening (chunks.map (Event.data 7)) = some after ∧
          Crosses listening after 2 [65] := by
  obtain ⟨out, frame, done, log, crosses⟩ := accepted_size_crosses farNode ⟨0x2000005, 0⟩ 0 0x1000003
    10 0 0 [65] 1 rfl 5 _ _ _ rfl rfl rfl rfl dialing rfl (by decide) (by decide) _ 1 9 listening
    listening_reached 2 7 (by decide) rfl rfl rfl
  refine ⟨out, frame, done, log, ?_⟩
  intro chunks cut
  obtain ⟨after, read, fits⟩ := crosses chunks cut
  exact ⟨after, read, fits.mpr (by decide)⟩

-- Twelve bytes below the limit of `skynet_send`, the length of the frame needs a fourth byte.
theorem largest_closes_link :
    ∃ payload : List UInt8, payload.length = 16777204 ∧ ∃ parcel call event out frame after,
      Sending.skynetSend farNode ⟨0x2000005, 0⟩ 0 0x1000003 10 0 (some payload) 16777204 =
          some (.pushed 5 parcel 0) ∧
        Sending.dispatchMessage farNode 5 parcel = some call ∧ outgoing call = some event ∧
        mainloop dialing event = some out ∧
        out.log = dialing.log ++ [.write 7 frame (some 0), .free 0] ∧
        run mainloop listening [.data 7 frame] = some after ∧
        deliveries after.log = deliveries listening.log ∧ (after.s 2).status = .down := by
  obtain ⟨payload, length⟩ : ∃ payload : List UInt8, payload.length = 16777204 :=
    ⟨List.replicate 16777204 0, List.length_replicate⟩
  obtain ⟨out, done, log⟩ := remote_written dialing 0x2000005 0x1000003 (toName []) 10 0 payload
    (by decide) (by decide) (by decide) (by decide)
  obtain ⟨after, read, result⟩ := frame_read _ 1 9 listening listening_reached 2 7 (by decide) rfl rfl
    rfl ⟨0x2000005, 0x1000003, 10, 0, payload⟩ (by rw [length]; decide) [_] (List.flatten_singleton)
  rw [if_neg (by rw [length]; decide)] at result
  have filtered : Sending.filterArgs ⟨0x2000005, 0⟩ 10 0 16777204 =
      some (0, 0xafffff4, ⟨0x2000005, 0⟩) := rfl
  have whole : payload.take (16777204 : Sending.SizeT).toNat = payload :=
    List.take_of_length_le length.le
  have accepted : Sending.skynetSend farNode ⟨0x2000005, 0⟩ 0 0x1000003 10 0 (some payload)
      16777204 = some (.pushed 5 (Sending.contextPush
        (.remote ⟨none, 0x1000003, some payload, 16777204⟩) Sending.remoteMessageSize 0x2000005 10 0)
        0) := by
    have size : Sending.packedSize 0xafffff4 = 16777204 := rfl
    have type : Sending.packedType 0xafffff4 = 10 := rfl
    unfold Sending.skynetSend
    rw [if_neg (by decide), filtered, Option.bind_some]
    simp only
    rw [if_neg (by decide), if_pos (by decide), if_pos trivial]
    unfold Sending.skynetHarborSend
    rw [if_neg (by decide)]
    simp only
    rw [if_neg (by decide), size, type]
    rfl
  have handed : outgoing
      ⟨10, 0, 0x2000005, .remote ⟨none, 0x1000003, some payload, 16777204⟩, 40⟩ =
        some (.remote 0x2000005 0x1000003 (toName []) 10 0 payload) := by
    unfold outgoing
    simp only
    rw [dif_pos (by decide), Option.getD_some, whole]
    rfl
  have called : Sending.dispatchMessage farNode 5 (Sending.contextPush
      (.remote ⟨none, 0x1000003, some payload, 16777204⟩) Sending.remoteMessageSize 0x2000005 10 0) =
        some ⟨10, 0, 0x2000005, .remote ⟨none, 0x1000003, some payload, 16777204⟩, 40⟩ := by
    have header : Sending.packSize Sending.remoteMessageSize 10 = 0xa000028 := rfl
    have size : Sending.packedSize 0xa000028 = 40 := rfl
    have type : Sending.packedType 0xa000028 = 10 := rfl
    unfold Sending.dispatchMessage Sending.contextPush
    rw [if_pos (by decide)]
    simp only [header, size, type]
  exact ⟨payload, length, _, _, _, out, _, after, accepted, called, handed, done, log, read, result⟩

end Pskynet.Harbor
