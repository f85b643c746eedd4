import Pskynet.Server.Handle

set_option autoImplicit false

namespace Pskynet.Server.Sending

abbrev SizeT := BitVec 64
abbrev CInt := BitVec 32

def ptypeSystem : CInt := 4
def ptypeHarbor : CInt := 5
def ptypeTagDontcopy : CInt := 0x10000
def ptypeTagAllocsession : CInt := 0x20000

-- `sz | type << HANDLE_REMOTE_SHIFT`: the shift is on an `int`, which is then widened with its
-- sign.
def packSize (sz : SizeT) (type : CInt) : SizeT :=
  sz ||| (type <<< handleRemoteShift).signExtend 64

def packedType (sz : SizeT) : CInt := (sz >>> handleRemoteShift).setWidth 32

def packedSize (sz : SizeT) : SizeT := sz &&& 0xffffff

-- `remote_message`: the name is set by `skynet_sendname` only.
structure RemoteMessage where
  name : Option (List UInt8)
  handle : UInt32
  message : Option (List UInt8)
  sz : SizeT

-- `sizeof(remote_message)`: a name, a handle, a pointer and a `size_t`.
def remoteMessageSize : SizeT := 40

inductive Data where
  | bytes (bytes : Option (List UInt8))
  | remote (rmsg : RemoteMessage)

structure Parcel where
  source : UInt32
  session : CInt
  data : Data
  sz : SizeT

structure Call where
  type : CInt
  session : CInt
  source : UInt32
  data : Data
  sz : SizeT

structure Node where
  mgr : SNHandleMgr Nat
  harbor : UInt32
  remote : Option Nat
  callback : Nat → Bool

structure Sender where
  handle : UInt32
  sessionId : CInt

inductive Sent where
  | failed (error : Option String)
  | nowhere (session : CInt)
  | pushed (context : Nat) (parcel : Parcel) (session : CInt)

def dispatchMessage (node : Node) (context : Nat) (msg : Parcel) : Option Call :=
  if node.callback context then
    some
      { type := packedType msg.sz, session := msg.session, source := msg.source, data := msg.data,
        sz := packedSize msg.sz }
  else none

def contextPush (msg : Data) (sz : SizeT) (source : UInt32) (type session : CInt) : Parcel where
  source := source
  session := session
  data := msg
  sz := packSize sz type

def newSession (context : Sender) : CInt × Sender :=
  let session := context.sessionId + 1
  if session.toInt ≤ 0 then (1, { context with sessionId := 1 })
  else (session, { context with sessionId := session })

-- The copy of the data that is made without `PTYPE_TAG_DONTCOPY` has the same bytes.
def filterArgs (context : Sender) (type session : CInt) (sz : SizeT) :
    Option (CInt × SizeT × Sender) :=
  let allocsession := type &&& ptypeTagAllocsession
  let type := type &&& 0xff
  if allocsession ≠ 0 then
    if session ≠ 0 then none
    else
      let (session, context) := newSession context
      some (session, packSize sz type, context)
  else some (session, packSize sz type, context)

def skynetHarborMessageIsremote (node : Node) (handle : UInt32) : Bool :=
  let h := handle &&& ~~~handleMask
  h ≠ node.harbor ∧ h ≠ 0

-- An assertion that fails ends the process.
def skynetHarborSend (node : Node) (rmsg : RemoteMessage) (source : UInt32) (session : CInt) :
    Option Sent :=
  if node.harbor = 0 then none
  else
    let type := packedType rmsg.sz
    let rmsg := { rmsg with sz := packedSize rmsg.sz }
    if type = ptypeSystem ∨ type = ptypeHarbor then none
    else
      node.remote.map fun remote =>
        .pushed remote (contextPush (.remote rmsg) remoteMessageSize source type session) session

def skynetSend (node : Node) (context : Sender) (source destination : UInt32)
    (type session : CInt) (data : Option (List UInt8)) (sz : SizeT) : Option Sent :=
  if packedSize sz ≠ sz then
    some (.failed (some ("The message to " ++ String.ofList (Nat.toDigits 16 destination.toNat) ++
      " is too large (sz = " ++ toString sz.toNat ++ ")")))
  else
    (filterArgs context type session sz).bind fun (session, sz, context) =>
      let source := if source = 0 then context.handle else source
      if destination = 0 then some (.nowhere session)
      else if skynetHarborMessageIsremote node destination then
        skynetHarborSend node { name := none, handle := destination, message := data, sz := sz }
          source session
      else
        match node.mgr.findContext destination with
        | none => some (.failed none)
        | some target =>
            some (.pushed target
              { source := source, session := session, data := .bytes data, sz := sz } session)

def hexDigit (c : Char) : Option Nat :=
  if '0' ≤ c ∧ c ≤ '9' then some (c.toNat - '0'.toNat)
  else if 'a' ≤ c ∧ c ≤ 'f' then some (c.toNat - 'a'.toNat + 10)
  else if 'A' ≤ c ∧ c ≤ 'F' then some (c.toNat - 'A'.toNat + 10)
  else none

def isspace (c : Char) : Bool := c.toNat = 32 ∨ (9 ≤ c.toNat ∧ c.toNat ≤ 13)

-- `strtoul(text, NULL, 16)` with 64 bits: blanks, a sign, perhaps `0x`, and digits; a number
-- that is too large gives `ULONG_MAX`.
def strtoul16 (text : List Char) : SizeT :=
  let text := text.dropWhile isspace
  let negative := text.head? = some '-'
  let text := if negative ∨ text.head? = some '+' then text.tail else text
  let text :=
    match text with
    | '0' :: x :: digit :: rest =>
        if (x = 'x' ∨ x = 'X') ∧ (hexDigit digit).isSome then digit :: rest else text
    | _ => text
  let digits := (text.takeWhile fun c => (hexDigit c).isSome).filterMap hexDigit
  let value := digits.foldl (fun n digit => n * 16 + digit) 0
  if 2 ^ 64 ≤ value then BitVec.allOnes 64
  else if negative then -BitVec.ofNat 64 value
  else BitVec.ofNat 64 value

def copyName (addr : List UInt8) : List UInt8 := (addr ++ List.replicate 16 0).take 16

def skynetSendname (node : Node) (context : Sender) (source : UInt32) (addr : List Char)
    (type session : CInt) (data : Option (List UInt8)) (sz : SizeT) : Option Sent :=
  let source := if source = 0 then context.handle else source
  match addr with
  | ':' :: text =>
      skynetSend node context source (UInt32.ofNat (strtoul16 text).toNat) type session data sz
  | '.' :: name =>
      let des := node.mgr.findName (String.ofList name)
      if des = 0 then some (.failed none)
      else skynetSend node context source des type session data sz
  | _ =>
      (filterArgs context type session sz).bind fun (session, sz, _) =>
        skynetHarborSend node
          { name := some (copyName (String.ofList addr).toUTF8.toList), handle := 0, message := data,
            sz := sz }
          source session

inductive Route where
  | send
  | sendnameHandle
  | sendnameLocal
  | sendnameGlobal
  | push
  | harborSend
  deriving DecidableEq, Repr

structure Request where
  source : UInt32
  destination : UInt32
  text : List Char
  target : Nat
  dontcopy : Bool
  allocsession : Bool
  session : CInt
  data : Option (List UInt8)

def ofByte (type : UInt8) : CInt := BitVec.ofNat 32 type.toNat

def Request.type (r : Request) (type : UInt8) : CInt :=
  ofByte type ||| (if r.dontcopy then ptypeTagDontcopy else 0) |||
    (if r.allocsession then ptypeTagAllocsession else 0)

def Route.go (route : Route) (node : Node) (context : Sender) (r : Request) (type : UInt8)
    (sz : SizeT) : Option Sent :=
  match route with
  | .send =>
      skynetSend node context r.source r.destination (r.type type) r.session r.data sz
  | .sendnameHandle =>
      skynetSendname node context r.source (':' :: r.text) (r.type type) r.session r.data sz
  | .sendnameLocal =>
      skynetSendname node context r.source ('.' :: r.text) (r.type type) r.session r.data sz
  | .sendnameGlobal =>
      if r.text.head? = some ':' ∨ r.text.head? = some '.' then none
      else skynetSendname node context r.source r.text (r.type type) r.session r.data sz
  | .push =>
      some (.pushed r.target (contextPush (.bytes r.data) sz r.source (ofByte type) r.session)
        r.session)
  | .harborSend =>
      skynetHarborSend node
        { name := none, handle := r.destination, message := r.data,
          sz := packSize sz (ofByte type) }
        r.source r.session

def Route.checksSize : Route → Bool
  | .send | .sendnameHandle | .sendnameLocal => true
  | .sendnameGlobal | .push | .harborSend => false

def Call.dataSize (call : Call) : SizeT :=
  match call.data with
  | .bytes _ => call.sz
  | .remote rmsg => rmsg.sz

def Exact (node : Node) (type : UInt8) (sz : SizeT) : Option Sent → Prop
  | some (.pushed context parcel _) => ∀ call, dispatchMessage node context parcel = some call →
      call.type.toInt = type.toNat ∧ call.dataSize = sz
  | _ => True

theorem packedSize_toNat (sz : SizeT) : (packedSize sz).toNat = sz.toNat % 2 ^ 24 := by
  rw [packedSize, BitVec.toNat_and]
  exact Nat.and_two_pow_sub_one_eq_mod sz.toNat 24

theorem packedSize_eq_iff (sz : SizeT) : packedSize sz = sz ↔ sz.toNat < 2 ^ 24 := by
  rw [← BitVec.toNat_inj, packedSize_toNat]
  omega

theorem packedSize_shifted (type : CInt) :
    packedSize ((type <<< handleRemoteShift).signExtend 64) = 0#64 := by
  rw [← BitVec.toNat_inj, packedSize_toNat, BitVec.toNat_signExtend, BitVec.toNat_setWidth,
    BitVec.toNat_shiftLeft, handleRemoteShift, Nat.shiftLeft_eq]
  change _ = 0
  split_ifs <;> omega

theorem packedSize_packSize (sz : SizeT) (type : CInt) :
    packedSize (packSize sz type) = packedSize sz := by
  have shifted := packedSize_shifted type
  rw [packedSize] at shifted ⊢
  rw [packSize, BitVec.and_or_distrib_right, shifted, BitVec.or_zero]
  rfl

theorem packedType_packSize (sz : SizeT) (type : CInt) (small : sz.toNat < 2 ^ 24) :
    packedType (packSize sz type) = packedType (packSize 0 type) := by
  have high : sz >>> handleRemoteShift = 0 := by
    rw [← BitVec.toNat_inj, BitVec.toNat_ushiftRight, handleRemoteShift, Nat.shiftRight_eq_div_pow]
    exact Nat.div_eq_of_lt small
  rw [packedType, packedType, packSize, packSize, BitVec.ushiftRight_or_distrib, high,
    BitVec.ushiftRight_or_distrib]
  rfl

theorem packedType_byte (type : UInt8) :
    (packedType (packSize 0 (ofByte type))).toInt =
      if type.toNat < 128 then (type.toNat : Int) else type.toNat - 256 := by
  have all : ∀ n : Fin 256, (packedType (packSize 0 (BitVec.ofNat 32 n))).toInt =
      if (n : Nat) < 128 then ((n : Nat) : Int) else (n : Nat) - 256 := by
    decide +kernel
  exact all ⟨type.toNat, type.toNat_lt⟩

theorem packedType_again (type : UInt8) :
    packedType (packSize 0 (packedType (packSize 0 (ofByte type)))) =
      packedType (packSize 0 (ofByte type)) := by
  have all : ∀ n : Fin 256, packedType (packSize 0 (packedType (packSize 0 (BitVec.ofNat 32 n)))) =
      packedType (packSize 0 (BitVec.ofNat 32 n)) := by
    decide +kernel
  exact all ⟨type.toNat, type.toNat_lt⟩

theorem Request.type_masked (r : Request) (type : UInt8) : r.type type &&& 0xff = ofByte type := by
  have all : ∀ n : Fin 256, BitVec.ofNat 32 n &&& 0xff = BitVec.ofNat 32 n := by decide +kernel
  have byte : ofByte type &&& 0xff = ofByte type := all ⟨type.toNat, type.toNat_lt⟩
  rw [Request.type, BitVec.and_or_distrib_right, BitVec.and_or_distrib_right, byte]
  cases r.dontcopy <;> cases r.allocsession <;> simp [ptypeTagDontcopy, ptypeTagAllocsession]

inductive Packed (type : UInt8) (sz : SizeT) (parcel : Parcel) : Prop where
  | once (data : Option (List UInt8)) (bytes : parcel.data = .bytes data)
      (header : parcel.sz = packSize sz (ofByte type))
  | twice (rmsg : RemoteMessage) (remote : parcel.data = .remote rmsg)
      (size : rmsg.sz = packedSize (packSize sz (ofByte type)))
      (header : parcel.sz = packSize remoteMessageSize (packedType (packSize sz (ofByte type))))

theorem Packed.exact_iff {type : UInt8} {sz : SizeT} {parcel : Parcel} (packed : Packed type sz parcel)
    (node : Node) (context : Nat) (session : CInt) (callback : node.callback context) :
    Exact node type sz (some (.pushed context parcel session)) ↔
      type.toNat < 128 ∧ sz.toNat < 2 ^ 24 := by
  have byte := packedType_byte type
  have called (call : Call) : dispatchMessage node context parcel = some call ↔
      { type := packedType parcel.sz, session := parcel.session, source := parcel.source,
        data := parcel.data, sz := packedSize parcel.sz } = call := by
    rw [dispatchMessage, if_pos callback, Option.some.injEq]
  have small : (type.toNat : Int) = (if type.toNat < 128 then (type.toNat : Int) else
      type.toNat - 256) ↔ type.toNat < 128 := by
    split_ifs with low
    · exact ⟨fun _ => low, fun _ => rfl⟩
    · omega
  simp only [Exact, called, forall_eq']
  cases packed with
  | once data bytes header =>
    simp only [Call.dataSize, bytes, header, packedSize_packSize, packedSize_eq_iff]
    refine and_congr_left ?_
    intro fits
    rw [packedType_packSize sz _ fits, byte, eq_comm, small]
  | twice rmsg remote size header =>
    simp only [Call.dataSize, remote, size, header, packedSize_packSize, packedSize_eq_iff]
    refine and_congr_left ?_
    intro fits
    rw [packedType_packSize sz _ fits, packedType_packSize _ _ (by decide), packedType_again, byte,
      eq_comm, small]

theorem filterArgs_packs (context later : Sender) (type : UInt8) (r : Request) (session after : CInt)
    (sz packed : SizeT)
    (filtered : filterArgs context (r.type type) session sz = some (after, packed, later)) :
    packed = packSize sz (ofByte type) := by
  simp only [filterArgs, r.type_masked] at filtered
  split_ifs at filtered
  · simp only [Option.some.injEq, Prod.mk.injEq] at filtered
    exact filtered.2.1.symm
  · simp only [Option.some.injEq, Prod.mk.injEq] at filtered
    exact filtered.2.1.symm

def Pushes (type : UInt8) (sz : SizeT) (checked : Prop) : Option Sent → Prop
  | some (.pushed _ parcel _) => Packed type sz parcel ∧ checked
  | _ => True

theorem skynetHarborSend_pushes (node : Node) (rmsg : RemoteMessage) (source : UInt32)
    (session : CInt) (type : UInt8) (sz : SizeT) (checked : Prop) (allowed : checked)
    (packed : rmsg.sz = packSize sz (ofByte type)) :
    Pushes type sz checked (skynetHarborSend node rmsg source session) := by
  unfold skynetHarborSend
  split_ifs
  · trivial
  · simp only
    split_ifs
    · trivial
    · cases node.remote with
      | none => trivial
      | some remote => exact ⟨.twice _ rfl (by rw [packed]) (by rw [contextPush, packed]), allowed⟩

theorem skynetSend_pushes (node : Node) (context : Sender) (source destination : UInt32)
    (r : Request) (type : UInt8) (session : CInt) (data : Option (List UInt8)) (sz : SizeT) :
    Pushes type sz (sz.toNat < 2 ^ 24)
      (skynetSend node context source destination (r.type type) session data sz) := by
  unfold skynetSend
  by_cases large : packedSize sz ≠ sz
  · rw [if_pos large]
    trivial
  · rw [if_neg large]
    have fits := (packedSize_eq_iff sz).mp (not_not.mp large)
    cases filtered : filterArgs context (r.type type) session sz with
    | none => trivial
    | some result =>
      obtain ⟨after, packed, later⟩ := result
      have packs := filterArgs_packs context later type r session after sz packed filtered
      simp only [Option.bind_some]
      by_cases zero : destination = 0
      · rw [if_pos zero]
        trivial
      rw [if_neg zero]
      by_cases remote : skynetHarborMessageIsremote node destination
      · rw [if_pos remote]
        exact skynetHarborSend_pushes node _ _ _ type sz _ fits packs
      · rw [if_neg remote]
        cases node.mgr.findContext destination with
        | none => trivial
        | some target => exact ⟨.once data rfl packs, fits⟩

theorem Route.global_go (node : Node) (context : Sender) (r : Request) (type : UInt8) (sz : SizeT) :
    Route.sendnameGlobal.go node context r type sz = none ∨
      ∃ rmsg source session, rmsg.sz = packSize sz (ofByte type) ∧
        Route.sendnameGlobal.go node context r type sz =
          skynetHarborSend node rmsg source session := by
  by_cases marked : r.text.head? = some ':' ∨ r.text.head? = some '.'
  · exact .inl (if_pos marked)
  · rw [Route.go, if_neg marked]
    unfold skynetSendname
    simp only
    split
    · rename_i text here
      exact absurd (.inl (by rw [here]; rfl)) marked
    · rename_i text here
      exact absurd (.inr (by rw [here]; rfl)) marked
    · cases filtered : filterArgs context (r.type type) r.session sz with
      | none => exact .inl rfl
      | some result =>
        obtain ⟨after, packed, later⟩ := result
        have packs := filterArgs_packs context later type r _ after sz packed filtered
        exact .inr ⟨_, _, _, packs, rfl⟩

theorem Route.go_pushes (route : Route) (node : Node) (context : Sender) (r : Request)
    (type : UInt8) (sz : SizeT) :
    Pushes type sz (route.checksSize → sz.toNat < 2 ^ 24) (route.go node context r type sz) := by
  have checked (sent : Option Sent) (pushes : Pushes type sz (sz.toNat < 2 ^ 24) sent) :
      Pushes type sz (route.checksSize → sz.toNat < 2 ^ 24) sent := by
    match sent, pushes with
    | some (.pushed _ _ _), ⟨packed, fits⟩ => exact ⟨packed, fun _ => fits⟩
    | some (.failed _), _ => trivial
    | some (.nowhere _), _ => trivial
    | none, _ => trivial
  cases route with
  | send => exact checked _ (skynetSend_pushes node context _ _ r type _ _ sz)
  | sendnameHandle => exact checked _ (skynetSend_pushes node context _ _ r type _ _ sz)
  | sendnameLocal =>
    refine checked _ ?_
    simp only [Route.go, skynetSendname]
    by_cases unknown : node.mgr.findName (String.ofList r.text) = 0
    · rw [if_pos unknown]
      trivial
    · rw [if_neg unknown]
      exact skynetSend_pushes node context _ _ r type _ _ sz
  | sendnameGlobal =>
    rcases Route.global_go node context r type sz with none | ⟨rmsg, source, session, packs, sent⟩
    · rw [none]
      trivial
    · rw [sent]
      exact skynetHarborSend_pushes node rmsg source session type sz _ (by simp [Route.checksSize])
        packs
  | push => exact ⟨.once r.data rfl rfl, by simp [Route.checksSize]⟩
  | harborSend =>
    exact skynetHarborSend_pushes node _ _ _ type sz _ (by simp [Route.checksSize]) rfl

def Route.viaHarbor : Route → Bool
  | .sendnameGlobal | .harborSend => true
  | .send | .sendnameHandle | .sendnameLocal | .push => false

def stopped (type : UInt8) (sz : SizeT) : Prop :=
  packedType (packSize sz (ofByte type)) = ptypeSystem ∨
    packedType (packSize sz (ofByte type)) = ptypeHarbor

def openNode : Node where
  mgr := { harbor := 0x1000000, handleIndex := 1, slot := fun _ => some 0, nameMap := fun _ => some 1 }
  harbor := 0x1000000
  remote := some 0
  callback := fun _ => true

def plainRequest : Request where
  source := 1
  destination := 1
  text := ['1']
  target := 0
  dontcopy := false
  allocsession := false
  session := 0
  data := none

theorem skynetHarborSend_open (rmsg : RemoteMessage) (source : UInt32) (session : CInt)
    (type : UInt8) (sz : SizeT) (packed : rmsg.sz = packSize sz (ofByte type))
    (passes : ¬stopped type sz) :
    ∃ parcel, skynetHarborSend openNode rmsg source session = some (.pushed 0 parcel session) := by
  simp only [skynetHarborSend, packed]
  rw [if_neg (by decide)]
  unfold stopped at passes
  rw [if_neg passes]
  exact ⟨_, rfl⟩

theorem filterArgs_plain (context : Sender) (type : UInt8) (sz : SizeT) :
    filterArgs context (plainRequest.type type) 0 sz = some (0, packSize sz (ofByte type), context) := by
  have all : ∀ n : Fin 256, BitVec.ofNat 32 n &&& ptypeTagAllocsession = 0 := by decide +kernel
  have tag : plainRequest.type type &&& ptypeTagAllocsession = 0 := by
    simp only [Request.type, plainRequest, Bool.false_eq_true, if_false]
    rw [BitVec.ofNat_eq_ofNat, BitVec.or_zero, BitVec.or_zero]
    exact all ⟨type.toNat, type.toNat_lt⟩
  simp only [filterArgs, tag, plainRequest.type_masked]
  rfl

theorem skynetSend_open (context : Sender) (source destination : UInt32) (type : UInt8) (sz : SizeT)
    (fits : sz.toNat < 2 ^ 24) (known : destination ≠ 0)
    (near : skynetHarborMessageIsremote openNode destination = false) :
    ∃ parcel, skynetSend openNode context source destination (plainRequest.type type) 0 none sz =
      some (.pushed 0 parcel 0) := by
  have small : ¬packedSize sz ≠ sz := not_not.mpr ((packedSize_eq_iff sz).mpr fits)
  simp only [skynetSend, small, if_false, filterArgs_plain, Option.bind_some, known, near]
  exact ⟨_, rfl⟩

theorem Route.go_open (route : Route) (context : Sender) (type : UInt8) (sz : SizeT)
    (fits : route.checksSize → sz.toNat < 2 ^ 24) (passes : route.viaHarbor → ¬stopped type sz) :
    ∃ parcel, route.go openNode context plainRequest type sz = some (.pushed 0 parcel 0) := by
  cases route with
  | send => exact skynetSend_open context _ 1 type sz (fits rfl) (by decide) (by decide)
  | sendnameHandle =>
    have one : UInt32.ofNat (strtoul16 ['1']).toNat = 1 := by decide
    have sent := skynetSend_open context 1 1 type sz (fits rfl) (by decide) (by decide)
    rw [← one] at sent
    exact sent
  | sendnameLocal => exact skynetSend_open context 1 1 type sz (fits rfl) (by decide) (by decide)
  | sendnameGlobal =>
    change ∃ parcel, ((filterArgs context (plainRequest.type type) 0 sz).bind _) = _
    rw [filterArgs_plain]
    exact skynetHarborSend_open _ _ _ type sz rfl (passes rfl)
  | push => exact ⟨_, rfl⟩
  | harborSend => exact skynetHarborSend_open _ _ _ type sz rfl (passes rfl)

theorem skynetHarborSend_stopped (node : Node) (rmsg : RemoteMessage) (source : UInt32)
    (session : CInt) (type : UInt8) (sz : SizeT) (packed : rmsg.sz = packSize sz (ofByte type))
    (stop : stopped type sz) : skynetHarborSend node rmsg source session = none := by
  unfold stopped at stop
  simp only [skynetHarborSend, packed]
  rw [if_pos stop, ite_self]

theorem Route.go_stopped (route : Route) (node : Node) (context : Sender) (r : Request) (type : UInt8)
    (sz : SizeT) (via : route.viaHarbor) (stop : stopped type sz) :
    route.go node context r type sz = none := by
  cases route with
  | sendnameGlobal =>
    rcases Route.global_go node context r type sz with none | ⟨rmsg, source, session, packs, sent⟩
    · exact none
    · rw [sent]
      exact skynetHarborSend_stopped node rmsg source session type sz packs stop
  | harborSend => exact skynetHarborSend_stopped node _ _ _ type sz rfl stop
  | send | sendnameHandle | sendnameLocal | push => contradiction

theorem header_exact_iff (route : Route) (type : UInt8) (sz : SizeT) :
    (∀ node context r, Exact node type sz (route.go node context r type sz)) ↔
      (type.toNat < 128 ∧ sz.toNat < 2 ^ 24) ∨ (route.checksSize ∧ 2 ^ 24 ≤ sz.toNat) ∨
        (route.viaHarbor ∧ stopped type sz) := by
  constructor
  · intro exact_
    by_contra none
    simp only [not_or, not_and, not_le] at none
    obtain ⟨wrong, fits, passes⟩ := none
    obtain ⟨parcel, sent⟩ := route.go_open { handle := 1, sessionId := 0 } type sz fits passes
    have pushes := route.go_pushes openNode { handle := 1, sessionId := 0 } plainRequest type sz
    have holds := exact_ openNode { handle := 1, sessionId := 0 } plainRequest
    rw [sent] at pushes holds
    obtain ⟨low, small⟩ := (pushes.1.exact_iff openNode 0 0 rfl).mp holds
    exact wrong low small
  · intro cases_ node context r
    have pushes := route.go_pushes node context r type sz
    rcases cases_ with ⟨low, fits⟩ | ⟨checks, large⟩ | ⟨via, stop⟩
    · match route.go node context r type sz, pushes with
      | some (.pushed target parcel session), ⟨packed, _⟩ =>
        by_cases callback : node.callback target
        · exact (packed.exact_iff node target session callback).mpr ⟨low, fits⟩
        · intro call called
          rw [dispatchMessage, if_neg callback] at called
          contradiction
      | some (.failed _), _ => trivial
      | some (.nowhere _), _ => trivial
      | none, _ => trivial
    · match route.go node context r type sz, pushes with
      | some (.pushed _ _ _), ⟨_, fits⟩ => exact absurd (fits checks) (not_lt.mpr large)
      | some (.failed _), _ => trivial
      | some (.nowhere _), _ => trivial
      | none, _ => trivial
    · rw [route.go_stopped node context r type sz via stop]
      trivial

theorem header_changed :
    (∃ context parcel session call,
      Route.send.go openNode { handle := 1, sessionId := 0 } plainRequest 128 5 =
        some (.pushed context parcel session) ∧
      dispatchMessage openNode context parcel = some call ∧ call.type.toInt = -128) ∧
    (∃ context parcel session call,
      Route.push.go openNode { handle := 1, sessionId := 0 } plainRequest 1 0x1000000 =
        some (.pushed context parcel session) ∧
      dispatchMessage openNode context parcel = some call ∧ call.dataSize = 0 ∧
        call.type.toInt = 1) ∧
    ¬∀ (route : Route) (type : UInt8) (sz : SizeT) node context r,
      Exact node type sz (route.go node context r type sz) := by
  refine ⟨⟨_, _, _, _, rfl, rfl, by decide⟩, ⟨_, _, _, _, rfl, rfl, by decide, by decide⟩, ?_⟩
  intro all
  have holds := all .send 128 5 openNode { handle := 1, sessionId := 0 } plainRequest _ rfl
  exact absurd holds.1 (by decide)

end Pskynet.Server.Sending
