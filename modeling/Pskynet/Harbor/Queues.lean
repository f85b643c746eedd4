import Pskynet.Harbor.Service
import Pskynet.Shared.Words

set_option autoImplicit false

namespace Pskynet.Harbor

open Server

def queued : Option Queue → List HarborMsg
  | none => []
  | some queue => queue.contents

@[simp] theorem queued_none : queued none = [] := rfl

@[simp] theorem queued_some (queue : Queue) : queued (some queue) = queue.contents := rfl

@[simp] theorem contents_newQueue : newQueue.contents = [] :=
  CircularBuffer.contents_new _ _ _

theorem queued_getD (queue : Option Queue) : (queue.getD newQueue).contents = queued queue := by
  cases queue <;> simp

theorem contents_pushQueueMsg (queue : Queue) (m : HarborMsg) :
    (pushQueueMsg queue m).contents = queue.contents ++ [m] := by
  have head := queue.head_lt
  have tail := queue.tail_lt
  have small := queue.count_lt
  have full : (queue.tail + 1) % queue.cap = queue.head ↔ queue.count + 1 = queue.cap := by
    rw [CircularBuffer.wrap_eq_mod _ _ (by omega)]
    have met := CircularBuffer.put_full_iff queue m
    rw [eq_comm]
    exact met
  unfold pushQueueMsg
  split_ifs with last
  · have size : queue.cap - 1 = queue.count := by
      have := full.mp last
      omega
    have moved : (queue.regrow (queue.cap - 1) (queue.cap * 2) (by omega)).contents =
        queue.contents := by
      rw [CircularBuffer.contents_regrow, size]
      rfl
    rw [CircularBuffer.contents_put, moved]
    rw [← CircularBuffer.length_contents, moved, CircularBuffer.length_contents]
    change queue.count + 1 < queue.cap * 2
    omega
  · have room : queue.count + 1 ≠ queue.cap := fun h => last (full.mpr h)
    exact CircularBuffer.contents_put queue m (by omega)

theorem foldl_pushQueueMsg (messages : List HarborMsg) (queue : Queue) :
    (messages.foldl pushQueueMsg queue).contents = queue.contents ++ messages := by
  induction messages generalizing queue with
  | nil => simp
  | cons m messages ih =>
    rw [List.foldl_cons, ih, contents_pushQueueMsg]
    simp

theorem foldl_did (messages : List HarborMsg) (h : Harbor) (effect : HarborMsg → Effect) :
    messages.foldl (fun h m => h.did (effect m)) h =
      { h with log := h.log ++ messages.map effect } := by
  induction messages generalizing h with
  | nil => simp
  | cons m messages ih =>
    rw [List.foldl_cons, ih]
    simp [Harbor.did]

def freed (m : HarborMsg) : Effect := .free m.buffer.id

def written (fd : Int) (m : HarborMsg) : Effect := .write fd m.frame (some m.buffer.id)

theorem releaseQueue_eq (h : Harbor) (queue : Option Queue) :
    releaseQueue h queue = { h with log := h.log ++ (queued queue).map freed } := by
  cases queue with
  | none => simp [releaseQueue]
  | some queue =>
    rw [releaseQueue, CircularBuffer.drain_fst]
    exact foldl_did _ h freed

def waiting (h : Harbor) (name : Name) : List HarborMsg :=
  queued ((hashSearch h.map name).bind (·.queue))

theorem bucket_congr (name other : Name) (same : nameKey name = nameKey other) :
    bucket name = bucket other := by
  have hash : nameHash name = nameHash other := congrArg Prod.fst same
  rw [bucket, bucket, hash]

theorem hashSearch_congr (hash : HashMap) (name other : Name) (same : nameKey name = nameKey other) :
    hashSearch hash name = hashSearch hash other := by
  rw [hashSearch, hashSearch, same, bucket_congr name other same]

theorem hashSearch_hashInsert (hash : HashMap) (name other : Name) :
    hashSearch (hashInsert hash name) other =
      if nameKey name = nameKey other then
        some { key := name, hash := nameHash name, value := 0, queue := none }
      else hashSearch hash other := by
  split_ifs with same
  · rw [hashSearch, hashInsert, bucket_congr name other same, Function.update_self,
      List.find?_cons_of_pos]
    exact decide_eq_true same
  · rw [hashSearch, hashInsert]
    by_cases place : bucket other = bucket name
    · have skip : ¬KeyValue.nameKey
          { key := name, hash := nameHash name, value := 0, queue := none } = nameKey other := same
      rw [place, Function.update_self, List.find?_cons_of_neg, hashSearch, place]
      simpa using skip
    · rw [Function.update_of_ne place, hashSearch]

theorem hashSearch_hashNode (hash : HashMap) (name other : Name) :
    (hashSearch (hashNode hash name) other).bind (·.queue) =
      (hashSearch hash other).bind (·.queue) := by
  unfold hashNode
  split_ifs with missing
  · rw [hashSearch_hashInsert]
    split_ifs with same
    · have gone : hashSearch hash other = none := by
        rw [← hashSearch_congr hash name other same]
        simpa using missing
      rw [gone]
      rfl
    · rfl
  · rfl

theorem search_hashWrite (hash : HashMap) (name other : Name) (value : UInt32)
    (queue : Option Queue) :
    hashSearch (hashWrite hash name value queue) other =
      (hashSearch hash other).map fun node => if nameKey other = nameKey name then
        { node with value := value, queue := queue } else node := by
  have search (chain : List KeyValue) :
      ((chain.map fun node => if node.nameKey = nameKey name then
          { node with value := value, queue := queue } else node).find?
        fun node => node.nameKey = nameKey other) =
      (chain.find? fun node => node.nameKey = nameKey other).map fun node =>
        if nameKey other = nameKey name then
          { node with value := value, queue := queue } else node := by
    induction chain with
    | nil => rfl
    | cons node chain ih =>
      have kept : (if node.nameKey = nameKey name then
          { node with value := value, queue := queue } else node).nameKey = node.nameKey := by
        split_ifs <;> rfl
      by_cases here : node.nameKey = nameKey other
      · rw [List.map_cons, List.find?_cons_of_pos (by simpa [kept] using here),
          List.find?_cons_of_pos (by simpa using here), here]
        rfl
      · rw [List.map_cons, List.find?_cons_of_neg (by simpa [kept] using here),
          List.find?_cons_of_neg (by simpa using here), ih]
  unfold hashWrite hashSearch
  by_cases place : bucket other = bucket name
  · rw [place, Function.update_self]
    exact search _
  · have different : ¬nameKey other = nameKey name := fun same => place (bucket_congr _ _ same)
    simp only [Function.update_of_ne place, if_neg different, Option.map_id']

theorem hashSearch_hashWrite (hash : HashMap) (name other : Name) (value : UInt32)
    (queue : Option Queue) :
    (hashSearch (hashWrite hash name value queue) other).bind (·.queue) =
      if nameKey other = nameKey name then (hashSearch hash other).bind fun _ => queue
      else (hashSearch hash other).bind (·.queue) := by
  rw [search_hashWrite, Option.bind_map]
  split_ifs <;> rfl

theorem waiting_hashWrite (h : Harbor) (map : HashMap) (name other : Name) (value : UInt32)
    (queue : Option Queue) (m : HarborMsg)
    (inside : m ∈ waiting { h with map := hashWrite map name value queue } other) :
    m ∈ waiting { h with map := map } other ∨ (nameKey other = nameKey name ∧ m ∈ queued queue) := by
  rw [waiting, hashSearch_hashWrite] at inside
  split_ifs at inside with same
  · right
    cases found : hashSearch map other with
    | none => simp [found] at inside
    | some node =>
      rw [found] at inside
      exact ⟨same, inside⟩
  · exact .inl inside

theorem waiting_hashNode (h : Harbor) (name other : Name) :
    waiting { h with map := hashNode h.map name } other = waiting h other := by
  rw [waiting, hashSearch_hashNode]
  rfl

def Unaddressed (m : HarborMsg) : Prop := m.header.destination &&& handleMask = 0

theorem type_unaddressed (type : UInt8) : type.toUInt32 <<< 24 &&& handleMask = 0 := by
  have high : (type.toUInt32 <<< 24).toNat = type.toNat * 2 ^ 24 :=
    Words.toNat_shiftLeft_byte type 24 (by decide)
  rw [← UInt32.toNat_inj, Words.toNat_and_mask 24 _ handleMask (by decide), high]
  simp

theorem setSlave_self (h : Harbor) (id : Nat) (slave : Slave) :
    (h.setSlave id slave).s id = slave := by
  simp [Harbor.setSlave]

theorem setSlave_other (h : Harbor) (id other : Nat) (slave : Slave) (different : other ≠ id) :
    (h.setSlave id slave).s other = h.s other := by
  simp [Harbor.setSlave, different]

theorem dispatchQueue_eq (h : Harbor) (id : Nat) (linked : (h.s id).fd ≠ 0) :
    dispatchQueue h id =
      some (Harbor.setSlave
        { h with log := h.log ++ (queued (h.s id).queue).map (written (h.s id).fd) } id
        { h.s id with queue := none }) := by
  unfold dispatchQueue
  simp only [linked, if_false]
  cases waiting : (h.s id).queue with
  | none =>
    have same : { h.s id with queue := none } = h.s id := by rw [← waiting]
    simp [Harbor.setSlave, same]
  | some queue =>
    simp only [releaseQueue_eq, queued_some, CircularBuffer.contents_drain, List.map_nil,
      List.append_nil, CircularBuffer.drain_fst]
    rw [show (fun h m => sendRemote h (Harbor.s _ id).fd m) =
      fun (h : Harbor) m => h.did (written (Harbor.s _ id).fd m) from rfl, foldl_did]

theorem closeHarbor_eq (h : Harbor) (id : Nat) :
    closeHarbor h id =
      Harbor.setSlave
        { h with
          log := h.log ++ (if (h.s id).fd ≠ 0 then [.close (h.s id).fd] else []) ++
            (queued (h.s id).queue).map freed } id
        { h.s id with status := .down, queue := none } := by
  unfold closeHarbor
  simp only [releaseQueue_eq]
  split_ifs <;> simp [Harbor.did, Harbor.setSlave]

end Pskynet.Harbor
