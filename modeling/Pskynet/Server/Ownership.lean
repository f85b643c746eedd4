import Pskynet.Server.Send

set_option autoImplicit false

namespace Pskynet.Server.Sending

-- The buffer that the caller passes, and the one that `_filter_args` allocates.
inductive Block where
  | passed
  | copy
  deriving DecidableEq, Repr

structure Pointer where
  block : Block
  bytes : List UInt8
  deriving DecidableEq, Repr

-- What a call does with a block: `sn_malloc`, `sn_free`, or a queued message that holds it.
inductive Use where
  | malloc (block : Block)
  | free (block : Block)
  | queue (block : Block)
  deriving DecidableEq, Repr

abbrev Address := Option Pointer

def bytesOf (data : Address) : Option (List UInt8) := data.map Pointer.bytes

def snFree (data : Address) : List Use := (data.map fun p => Use.free p.block).toList

def handOn (data : Address) : List Use := (data.map fun p => Use.queue p.block).toList

def needcopy (type : CInt) : Bool := type &&& ptypeTagDontcopy = 0

def copyData (type : CInt) (data : Address) : Address × List Use :=
  if needcopy type then
    (data.map fun p => { p with block := .copy },
      (data.map fun _ => Use.malloc .copy).toList)
  else (data, [])

def sendBlocks (node : Node) (context : Sender) (source destination : UInt32) (type session : CInt)
    (data : Address) (sz : SizeT) : Option (Sent × List Use) :=
  if packedSize sz ≠ sz then
    some (.failed (some ("The message to " ++ String.ofList (Nat.toDigits 16 destination.toNat) ++
      " is too large (sz = " ++ toString sz.toNat ++ ")")), snFree data)
  else
    (filterArgs context type session sz).bind fun (session, sz, context) =>
      let (data, copied) := copyData type data
      let source := if source = 0 then context.handle else source
      if destination = 0 then some (.nowhere session, copied)
      else if skynetHarborMessageIsremote node destination then
        (skynetHarborSend node
          { name := none, handle := destination, message := bytesOf data, sz := sz } source session).map
          fun sent => (sent, copied ++ handOn data)
      else
        match node.mgr.findContext destination with
        | none => some (.failed none, copied ++ snFree data)
        | some target =>
            some (.pushed target
              { source := source, session := session, data := .bytes (bytesOf data), sz := sz }
              session, copied ++ handOn data)

def sendnameBlocks (node : Node) (context : Sender) (source : UInt32) (addr : List Char)
    (type session : CInt) (data : Address) (sz : SizeT) : Option (Sent × List Use) :=
  let source := if source = 0 then context.handle else source
  match addr with
  | ':' :: text =>
      sendBlocks node context source (UInt32.ofNat (strtoul16 text).toNat) type session data sz
  | '.' :: name =>
      let des := node.mgr.findName (String.ofList name)
      if des = 0 then some (.failed none, if needcopy type then [] else snFree data)
      else sendBlocks node context source des type session data sz
  | _ =>
      (filterArgs context type session sz).bind fun (session, sz, _) =>
        let (data, copied) := copyData type data
        (skynetHarborSend node
          { name := some (copyName (String.ofList addr).toUTF8.toList), handle := 0
            message := bytesOf data, sz := sz } source session).map
          fun sent => (sent, copied ++ handOn data)

theorem bytesOf_copyData (type : CInt) (data : Address) :
    bytesOf (copyData type data).1 = bytesOf data := by
  unfold copyData bytesOf
  split
  · rw [Option.map_map]
    rfl
  · rfl

theorem sendBlocks_sent (node : Node) (context : Sender) (source destination : UInt32)
    (type session : CInt) (data : Address) (sz : SizeT) :
    (sendBlocks node context source destination type session data sz).map Prod.fst =
      skynetSend node context source destination type session (bytesOf data) sz := by
  unfold sendBlocks skynetSend
  by_cases large : packedSize sz ≠ sz
  · rw [if_pos large, if_pos large]
    rfl
  · rw [if_neg large, if_neg large]
    cases filterArgs context type session sz with
    | none => rfl
    | some args =>
        simp only [Option.bind_some, bytesOf_copyData]
        split
        · rfl
        · split
          · rw [Option.map_map]
            exact congrFun Option.map_id _
          · cases node.mgr.findContext destination <;> rfl

theorem sendnameBlocks_sent (node : Node) (context : Sender) (source : UInt32) (addr : List Char)
    (type session : CInt) (data : Address) (sz : SizeT) :
    (sendnameBlocks node context source addr type session data sz).map Prod.fst =
      skynetSendname node context source addr type session (bytesOf data) sz := by
  unfold sendnameBlocks skynetSendname
  generalize (if source = 0 then context.handle else source) = origin
  split
  · exact sendBlocks_sent _ _ _ _ _ _ _ _
  · rename_i name
    show (if node.mgr.findName (String.ofList name) = 0 then _ else _ : Option _).map _ =
      if node.mgr.findName (String.ofList name) = 0 then _ else _
    split
    · rfl
    · exact sendBlocks_sent _ _ _ _ _ _ _ _
  · simp only
    cases filterArgs context type session sz with
    | none => rfl
    | some args =>
        simp only [Option.bind_some, bytesOf_copyData, Option.map_map]
        exact congrFun Option.map_id _

inductive Target where
  | handle (destination : UInt32)
  | name (addr : List Char)
  deriving DecidableEq, Repr

def Target.send (target : Target) (node : Node) (context : Sender) (source : UInt32)
    (type session : CInt) (data : Address) (sz : SizeT) : Option (Sent × List Use) :=
  match target with
  | .handle destination => sendBlocks node context source destination type session data sz
  | .name addr => sendnameBlocks node context source addr type session data sz

def Block.ends (block : Block) (uses : List Use) : Nat :=
  uses.count (.queue block) + uses.count (.free block)

-- A buffer of the caller is left alone, and one of the callee ends in one queued message or is
-- freed once.
structure Owned (type : CInt) (data : Address) (uses : List Use) : Prop where
  kept : needcopy type → .free .passed ∉ uses
  given : needcopy type = false → data.isSome → Block.passed.ends uses = 1
  copied : Block.copy.ends uses = uses.count (.malloc .copy)

inductive Destination where
  | handle (destination : UInt32)
  | unknownName
  | globalName
  deriving DecidableEq, Repr

def Target.destination (node : Node) : Target → Destination
  | .handle destination => .handle destination
  | .name (':' :: text) => .handle (UInt32.ofNat (strtoul16 text).toNat)
  | .name ('.' :: text) =>
      if node.mgr.findName (String.ofList text) = 0 then .unknownName
      else .handle (node.mgr.findName (String.ofList text))
  | .name _ => .globalName

theorem destination_global (node : Node) (addr : List Char) (noHandle : ∀ text, addr ≠ ':' :: text)
    (noName : ∀ text, addr ≠ '.' :: text) :
    (Target.name addr).destination node = .globalName := by
  unfold Target.destination
  split
  · contradiction
  · rename_i text same
    exact absurd (Target.name.inj same) (noHandle text)
  · rename_i text same
    exact absurd (Target.name.inj same) (noName text)
  · rfl

-- A message that is too large comes with `PTYPE_TAG_DONTCOPY`, and no other goes to handle 0.
def Destination.Fine (type : CInt) (sz : SizeT) : Destination → Prop
  | .handle destination =>
      if packedSize sz ≠ sz then needcopy type = false else destination ≠ 0
  | .unknownName => True
  | .globalName => True

instance (type : CInt) (sz : SizeT) : (d : Destination) → Decidable (d.Fine type sz)
  | .handle destination =>
      inferInstanceAs (Decidable (if packedSize sz ≠ sz then needcopy type = false else destination ≠ 0))
  | .unknownName => .isTrue trivial
  | .globalName => .isTrue trivial

def passed (data : Option (List UInt8)) : Address := data.map fun bytes => ⟨.passed, bytes⟩

variable {type : CInt} {bytes : List UInt8}

theorem copyData_null : copyData type none = (none, []) := by
  unfold copyData
  split <;> rfl

theorem copyData_copies (copies : needcopy type = true) :
    copyData type (passed (some bytes)) = (some ⟨.copy, bytes⟩, [.malloc .copy]) := by
  rw [copyData, if_pos copies]
  rfl

theorem copyData_keeps (gives : needcopy type = false) :
    copyData type (passed (some bytes)) = (some ⟨.passed, bytes⟩, []) := by
  rw [copyData, gives]
  rfl

theorem owned_null (type : CInt) : Owned type (passed none) [] where
  kept _ inside := nomatch inside
  given _ some_ := nomatch some_
  copied := rfl

theorem owned_of_copies {data : Address} {uses : List Use} (copies : needcopy type = true)
    (kept : .free .passed ∉ uses) (copied : Block.copy.ends uses = uses.count (.malloc .copy)) :
    Owned type data uses where
  kept _ := kept
  given gives := by
    rw [copies] at gives
    contradiction
  copied := copied

theorem owned_of_gives {data : Address} {uses : List Use} (gives : needcopy type = false)
    (given : Block.passed.ends uses = 1) (copied : Block.copy.ends uses = uses.count (.malloc .copy)) :
    Owned type data uses where
  kept copies := by
    rw [gives] at copies
    contradiction
  given _ _ := given
  copied := copied

theorem owned_ended (type : CInt) (data : Option (List UInt8)) (use : Block → Use)
    (ends : use = .queue ∨ use = .free) :
    Owned type (passed data) ((copyData type (passed data)).2 ++
      ((copyData type (passed data)).1.map fun p => use p.block).toList) := by
  cases data with
  | none =>
      rw [show passed none = none from rfl, copyData_null]
      exact owned_null type
  | some bytes =>
      cases copies : needcopy type with
      | true =>
          rw [copyData_copies copies]
          obtain rfl | rfl := ends
          · exact owned_of_copies copies
              (by decide : Use.free .passed ∉ [Use.malloc .copy, .queue .copy]) rfl
          · exact owned_of_copies copies
              (by decide : Use.free .passed ∉ [Use.malloc .copy, .free .copy]) rfl
      | false =>
          rw [copyData_keeps copies]
          obtain rfl | rfl := ends <;> exact owned_of_gives copies rfl rfl

theorem owned_queued (type : CInt) (data : Option (List UInt8)) :
    Owned type (passed data)
      ((copyData type (passed data)).2 ++ handOn (copyData type (passed data)).1) :=
  owned_ended type data .queue (.inl rfl)

theorem owned_freed (type : CInt) (data : Option (List UInt8)) :
    Owned type (passed data)
      ((copyData type (passed data)).2 ++ snFree (copyData type (passed data)).1) :=
  owned_ended type data .free (.inr rfl)

theorem owned_unknown (type : CInt) (data : Option (List UInt8)) :
    Owned type (passed data) (if needcopy type then [] else snFree (passed data)) := by
  cases copies : needcopy type with
  | true => exact owned_of_copies copies List.not_mem_nil rfl
  | false =>
      cases data with
      | none => exact owned_null type
      | some bytes => exact owned_of_gives copies rfl rfl

theorem owned_large_iff (type : CInt) (bytes : List UInt8) :
    Owned type (passed (some bytes)) (snFree (passed (some bytes))) ↔ needcopy type = false := by
  constructor
  · intro owned
    by_contra copies
    exact owned.kept (by simpa using copies) (by simp [snFree, passed])
  · intro gives
    exact owned_of_gives gives rfl rfl

theorem not_owned_nowhere (type : CInt) (bytes : List UInt8) :
    ¬Owned type (passed (some bytes)) (copyData type (passed (some bytes))).2 := by
  intro owned
  cases copies : needcopy type with
  | true =>
      have copied := owned.copied
      rw [copyData_copies copies] at copied
      have none_ : 0 = 1 := copied
      contradiction
  | false =>
      have given := owned.given copies rfl
      rw [copyData_keeps copies] at given
      have none_ : 0 = 1 := given
      contradiction

theorem sendBlocks_owned_iff (node : Node) (context : Sender) (source destination : UInt32)
    (type session : CInt) (data : Option (List UInt8)) (sz : SizeT) (sent : Sent) (uses : List Use)
    (ran : sendBlocks node context source destination type session (passed data) sz =
      some (sent, uses)) :
    Owned type (passed data) uses ↔ data = none ∨ (Destination.handle destination).Fine type sz := by
  unfold sendBlocks at ran
  show _ ↔ data = none ∨ if packedSize sz ≠ sz then needcopy type = false else destination ≠ 0
  by_cases large : packedSize sz ≠ sz
  · rw [if_pos large] at ran ⊢
    obtain ⟨-, rfl⟩ := Prod.mk.inj (Option.some.inj ran)
    cases data with
    | none => exact iff_of_true (owned_null type) (.inl rfl)
    | some bytes => simpa using owned_large_iff type bytes
  · rw [if_neg large] at ran ⊢
    obtain ⟨args, -, ran⟩ := Option.bind_eq_some_iff.mp ran
    simp only at ran
    by_cases nobody : destination = 0
    · rw [if_pos nobody] at ran
      obtain ⟨-, rfl⟩ := Prod.mk.inj (Option.some.inj ran)
      cases data with
      | none =>
          rw [show passed none = none from rfl, copyData_null]
          exact iff_of_true (owned_null type) (.inl rfl)
      | some bytes => exact iff_of_false (not_owned_nowhere type bytes) (by simp [nobody])
    · refine iff_of_true ?_ (.inr nobody)
      rw [if_neg nobody] at ran
      split at ran
      · obtain ⟨_, -, same⟩ := Option.map_eq_some_iff.mp ran
        obtain ⟨-, rfl⟩ := Prod.mk.inj same
        exact owned_queued type data
      · split at ran
        · obtain ⟨-, rfl⟩ := Prod.mk.inj (Option.some.inj ran)
          exact owned_freed type data
        · obtain ⟨-, rfl⟩ := Prod.mk.inj (Option.some.inj ran)
          exact owned_queued type data

theorem send_owned_iff (target : Target) (node : Node) (context : Sender) (source : UInt32)
    (type session : CInt) (data : Option (List UInt8)) (sz : SizeT) (sent : Sent) (uses : List Use)
    (ran : target.send node context source type session (passed data) sz = some (sent, uses)) :
    Owned type (passed data) uses ↔ data = none ∨ (target.destination node).Fine type sz := by
  cases target with
  | handle destination => exact sendBlocks_owned_iff _ _ _ _ _ _ _ _ _ _ ran
  | name addr =>
      simp only [Target.send, sendnameBlocks] at ran
      split at ran
      · exact sendBlocks_owned_iff _ _ _ _ _ _ _ _ _ _ ran
      · rename_i text
        show _ ↔ data = none ∨ Destination.Fine type sz
          (if node.mgr.findName (String.ofList text) = 0 then _ else _)
        split at ran
        · rename_i unknown
          rw [if_pos unknown]
          obtain ⟨-, rfl⟩ := Prod.mk.inj (Option.some.inj ran)
          exact iff_of_true (owned_unknown type data) (.inr trivial)
        · rename_i known
          rw [if_neg known]
          exact sendBlocks_owned_iff _ _ _ _ _ _ _ _ _ _ ran
      · rename_i noHandle noName
        obtain ⟨args, -, ran⟩ := Option.bind_eq_some_iff.mp ran
        obtain ⟨_, -, same⟩ := Option.map_eq_some_iff.mp ran
        obtain ⟨-, rfl⟩ := Prod.mk.inj same
        rw [destination_global node addr noHandle noName]
        exact iff_of_true (owned_queued type data) (.inr trivial)

theorem send_owned_nowhere :
    Owned ptypeTagDontcopy (passed (some [1])) [] ↔ some ([1] : List UInt8) = none ∨
      ((Target.handle 0).destination openNode).Fine ptypeTagDontcopy 1 :=
  send_owned_iff (.handle 0) openNode ⟨9, 0⟩ 0 ptypeTagDontcopy 3 (some [1]) 1 _ [] rfl

-- 16 MiB without `PTYPE_TAG_DONTCOPY`: the buffer of the caller is freed.
theorem large_buffer_freed : ∃ sent uses,
    (Target.handle 0x1000001).send openNode ⟨9, 0⟩ 0 0 3
        (passed (some (List.replicate 0x1000000 1))) 0x1000000 = some (sent, uses) ∧
      ¬Owned 0 (passed (some (List.replicate 0x1000000 1))) uses := by
  refine ⟨_, _, rfl, fun owned => ?_⟩
  exact owned.kept (by decide) (List.mem_singleton.mpr rfl)

end Pskynet.Server.Sending
