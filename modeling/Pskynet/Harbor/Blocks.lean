import Pskynet.Harbor.Order

set_option autoImplicit false

namespace Pskynet.Harbor

open Server Memory

def ended (log : List Effect) (block : Nat) : Nat := log.countP (Effect.ends block)

def inQueue (queue : Option Queue) (block : Nat) : Nat := (blocks (queued queue)).count block

@[irreducible] def inSlots (s : Nat → Slave) (block : Nat) : Nat :=
  ∑ id ∈ Finset.range remoteMax, inQueue (s id).queue block

def inChain (chain : List KeyValue) (block : Nat) : Nat :=
  (chain.map fun node => inQueue node.queue block).sum

@[irreducible] def inNames (map : HashMap) (block : Nat) : Nat :=
  ∑ i ∈ Finset.range hashSize, inChain (map i) block

def total (h : Harbor) (block : Nat) : Nat :=
  ended h.log block + inSlots h.s block + inNames h.map block

@[simp] theorem inQueue_none (block : Nat) : inQueue none block = 0 := rfl

theorem ended_append (log more : List Effect) (block : Nat) :
    ended (log ++ more) block = ended log block + ended more block := List.countP_append

theorem sum_update {A : Type} (n i : Nat) (inside : i < n) (f : Nat → A) (v : A) (g : A → Nat) :
    ∑ k ∈ Finset.range n, g (Function.update f i v k) + g (f i) =
      ∑ k ∈ Finset.range n, g (f k) + g v := by
  have member := Finset.mem_range.mpr inside
  have after := Finset.add_sum_erase (Finset.range n) (fun k => g (Function.update f i v k)) member
  have before := Finset.add_sum_erase (Finset.range n) (fun k => g (f k)) member
  have others : ∑ k ∈ (Finset.range n).erase i, g (Function.update f i v k) =
      ∑ k ∈ (Finset.range n).erase i, g (f k) :=
    Finset.sum_congr rfl fun k other => by rw [Function.update_of_ne (Finset.ne_of_mem_erase other)]
  simp only [Function.update_self] at after
  omega

theorem inSlots_update (s : Nat → Slave) (id block : Nat) (inside : id < remoteMax) (slot : Slave) :
    inSlots (Function.update s id slot) block + inQueue (s id).queue block =
      inSlots s block + inQueue slot.queue block := by
  unfold inSlots
  exact sum_update remoteMax id inside s slot fun slot => inQueue slot.queue block

theorem inNames_update (map : HashMap) (i block : Nat) (inside : i < hashSize)
    (chain : List KeyValue) :
    inNames (Function.update map i chain) block + inChain (map i) block =
      inNames map block + inChain chain block := by
  unfold inNames
  exact sum_update hashSize i inside map chain fun chain => inChain chain block

-- The blocks of `lost` are nowhere in `h'`, all others are as before.
structure Settles (lost : List HarborMsg) (h h' : Harbor) : Prop where
  count (block : Nat) : total h' block + (blocks lost).count block = total h block
  map : h'.map = h.map
  buffers : h'.buffers = h.buffers

variable {lost more : List HarborMsg} {h h' h'' : Harbor}

theorem Settles.refl (h : Harbor) : Settles [] h h := ⟨fun _ => Nat.add_zero _, rfl, rfl⟩

theorem Settles.trans (first : Settles lost h h') (second : Settles more h' h'') :
    Settles (lost ++ more) h h'' := by
  refine ⟨fun block => ?_, second.map.trans first.map, second.buffers.trans first.buffers⟩
  have one := first.count block
  have two := second.count block
  rw [blocks, List.map_append, List.count_append, ← blocks, ← blocks]
  omega

theorem Settles.then (first : Settles lost h h') (second : Settles [] h' h'') :
    Settles lost h h'' := by
  have both := first.trans second
  rwa [List.append_nil] at both

theorem did_settles (h : Harbor) (effect : Effect)
    (keeps : ∀ block, effect.ends block = false) : Settles [] h (h.did effect) := by
  refine ⟨fun block => ?_, rfl, rfl⟩
  show ended (h.log ++ [effect]) block + _ + _ + 0 = ended h.log block + _ + _
  have none_ : ended [effect] block = 0 := by
    unfold ended
    simp [keeps block]
  rw [ended_append, none_, Nat.add_zero, Nat.add_zero]
  rfl

theorem setSlave_settles (h : Harbor) (id : Nat) (inside : id < remoteMax) (slot : Slave)
    (same : slot.queue = (h.s id).queue) : Settles [] h (h.setSlave id slot) := by
  refine ⟨fun block => ?_, rfl, rfl⟩
  have slots := inSlots_update h.s id block inside slot
  rw [same] at slots
  show ended h.log block + inSlots (Function.update h.s id slot) block + inNames h.map block + 0 =
    ended h.log block + inSlots h.s block + inNames h.map block
  omega

theorem ended_freed (messages : List HarborMsg) (block : Nat) :
    ended (messages.map freed) block = (blocks messages).count block := by
  induction messages with
  | nil => rfl
  | cons m messages ih =>
      unfold ended blocks at ih ⊢
      rw [List.map_cons, List.map_cons, List.countP_cons, List.count_cons, ih]
      simp [freed, Effect.ends]

theorem release_settles (h : Harbor) (id : Nat) (inside : id < remoteMax) (slot : Slave)
    (empty : slot.queue = none) :
    Settles [] h ((releaseQueue h (h.s id).queue).setSlave id slot) := by
  rw [releaseQueue_eq]
  refine ⟨fun block => ?_, rfl, rfl⟩
  have slots := inSlots_update h.s id block inside slot
  rw [empty, inQueue_none] at slots
  show ended (h.log ++ (queued (h.s id).queue).map freed) block +
      inSlots (Function.update h.s id slot) block + inNames h.map block + 0 =
    ended h.log block + inSlots h.s block + inNames h.map block
  rw [ended_append, ended_freed]
  change _ + inQueue (h.s id).queue block + _ + _ + 0 = _
  omega

theorem closeHarbor_settles (h : Harbor) (id : Nat) (inside : id < remoteMax) :
    Settles [] h (closeHarbor h id) := by
  unfold closeHarbor
  simp only
  split_ifs
  · exact (did_settles h _ fun _ => rfl).then (release_settles (h.did _) id inside _ rfl)
  · exact release_settles h id inside _ rfl

theorem forwardLocalMessage_settles (msg : List UInt8) (done : forwardLocalMessage h msg = some h') :
    Settles [] h h' ∧ h'.s = h.s := by
  unfold forwardLocalMessage at done
  simp only at done
  split_ifs at done
  · obtain rfl := Option.some.inj done
    exact ⟨did_settles h _ fun _ => rfl, rfl⟩
  · obtain rfl := Option.some.inj done
    exact ⟨((did_settles h _ fun _ => rfl).then (did_settles _ _ fun _ => rfl)).then
      (did_settles _ _ fun _ => rfl), rfl⟩

theorem ended_written (messages : List HarborMsg) (fd : Int) (block : Nat) :
    ended (messages.map (written fd)) block = 0 := by
  refine List.countP_eq_zero.mpr fun effect inside => ?_
  obtain ⟨m, -, rfl⟩ := List.mem_map.mp inside
  exact Bool.false_ne_true

theorem dispatchQueue_settles (id : Nat) (inside : id < remoteMax)
    (done : dispatchQueue h id = some h') :
    Settles (queued (h.s id).queue) h h' ∧ (h'.s id).status = (h.s id).status := by
  by_cases linked : (h.s id).fd = 0
  · unfold dispatchQueue at done
    simp only [linked, if_true] at done
    contradiction
  · rw [dispatchQueue_eq h id linked] at done
    obtain rfl := Option.some.inj done
    refine ⟨⟨fun block => ?_, rfl, rfl⟩, by rw [setSlave_self]⟩
    have slots := inSlots_update h.s id block inside { h.s id with queue := none }
    rw [inQueue_none] at slots
    show ended (h.log ++ _) block + inSlots (Function.update h.s id _) block + inNames h.map block +
      inQueue (h.s id).queue block = ended h.log block + inSlots h.s block + inNames h.map block
    rw [ended_append, ended_written]
    omega

def Past (h h' : Harbor) (id : Nat) : Prop :=
  (h.s id).status ≠ .handshake → (h'.s id).status ≠ .handshake

theorem closeHarbor_status (h : Harbor) (id : Nat) : ((closeHarbor h id).s id).status = .down := by
  unfold closeHarbor
  simp only [Harbor.setSlave, Function.update_self]

theorem readHeader_settles (id : Nat) (inside : id < remoteMax) (buffer : List UInt8)
    (left : Option (List UInt8)) (turn : readHeader h id buffer = (h', left)) :
    Settles [] h h' ∧ Past h h' id := by
  unfold readHeader at turn
  simp only at turn
  split_ifs at turn
  · obtain ⟨rfl, -⟩ := Prod.mk.inj turn
    refine ⟨setSlave_settles h id inside _ rfl, fun past => ?_⟩
    rw [setSlave_self]
    exact past
  · obtain ⟨rfl, -⟩ := Prod.mk.inj turn
    constructor
    · refine Settles.then ?_ (closeHarbor_settles _ id inside)
      refine Settles.then ?_ (did_settles _ _ fun _ => rfl)
      exact setSlave_settles h id inside _ rfl
    · intro _
      rw [closeHarbor_status]
      decide
  all_goals
    obtain ⟨rfl, -⟩ := Prod.mk.inj turn
    refine ⟨setSlave_settles h id inside _ rfl, fun _ => ?_⟩
    rw [setSlave_self]
    exact Status.noConfusion

theorem readContent_settles (id : Nat) (inside : id < remoteMax) (buffer : List UInt8)
    (left : Option (List UInt8)) (turn : readContent h id buffer = some (h', left)) :
    Settles [] h h' ∧ Past h h' id := by
  unfold readContent at turn
  simp only at turn
  split at turn
  · obtain ⟨rfl, -⟩ := Prod.mk.inj (Option.some.inj turn)
    refine ⟨setSlave_settles h id inside _ rfl, fun past => ?_⟩
    rw [setSlave_self]
    exact past
  · obtain ⟨middle, forwarded, same⟩ := Option.map_eq_some_iff.mp turn
    obtain ⟨rfl, -⟩ := Prod.mk.inj same
    obtain ⟨settles, slots⟩ := forwardLocalMessage_settles _ forwarded
    refine ⟨settles.then (setSlave_settles middle id inside _ (by rw [slots])), fun _ => ?_⟩
    rw [setSlave_self]
    exact Status.noConfusion

theorem readMessage_settles (id : Nat) (inside : id < remoteMax) (buffer : List UInt8)
    (left : Option (List UInt8)) (turn : readMessage h id buffer = some (h', left)) :
    Settles [] h h' ∧ Past h h' id := by
  unfold readMessage at turn
  cases header : readHeader h id buffer with
  | mk middle rest =>
      obtain ⟨first, past⟩ := readHeader_settles id inside buffer rest header
      rw [header] at turn
      cases rest with
      | none =>
          obtain ⟨rfl, -⟩ := Prod.mk.inj (Option.some.inj turn)
          exact ⟨first, past⟩
      | some bytes =>
          obtain ⟨second, later⟩ := readContent_settles id inside bytes left turn
          exact ⟨first.then second, fun here => later (past here)⟩

def Shakes (h : Harbor) (id : Nat) (bytes : List UInt8) : Prop :=
  (h.s id).status = .handshake ∧ bytes.head?.map UInt8.toNat = some id

instance (h : Harbor) (id : Nat) (bytes : List UInt8) : Decidable (Shakes h id bytes) :=
  inferInstanceAs (Decidable (_ ∧ _))

def flushed (h : Harbor) (id : Nat) (bytes : List UInt8) : List HarborMsg :=
  if Shakes h id bytes then queued (h.s id).queue else []

theorem socketTurn_settles (id : Nat) (inside : id < remoteMax) (fd : Int) (buffer : List UInt8)
    (left : Option (List UInt8)) (turn : socketTurn h id fd buffer = some (h', left)) :
    Settles (flushed h id buffer) h h' ∧ (h'.s id).status ≠ .handshake := by
  have quiet (status : (h.s id).status ≠ .handshake) : flushed h id buffer = [] :=
    if_neg fun shakes => status shakes.1
  unfold socketTurn at turn
  cases status : (h.s id).status with
  | handshake =>
      rw [status] at turn
      cases buffer with
      | nil => contradiction
      | cons remoteId rest =>
          unfold readHandshake at turn
          simp only at turn
          split at turn
          · rename_i other
            obtain ⟨rfl, -⟩ := Prod.mk.inj (Option.some.inj turn)
            have stays : flushed h id (remoteId :: rest) = [] :=
              if_neg fun shakes => other (Option.some.inj shakes.2)
            rw [stays]
            refine ⟨(did_settles h _ fun _ => rfl).then (closeHarbor_settles _ id inside), ?_⟩
            rw [closeHarbor_status]
            decide
          · rename_i own
            obtain ⟨middle, dispatched, turn⟩ := Option.bind_eq_some_iff.mp turn
            have shakes : flushed h id (remoteId :: rest) = queued (h.s id).queue :=
              if_pos ⟨status, congrArg some (not_not.mp own)⟩
            have opened := setSlave_settles h id inside { h.s id with status := .header } rfl
            obtain ⟨flush, same⟩ := dispatchQueue_settles id inside dispatched
            have sent := opened.trans flush
            rw [List.nil_append, setSlave_self] at sent
            have header : (middle.s id).status ≠ .handshake := by
              rw [same, setSlave_self]
              exact Status.noConfusion
            rw [shakes]
            split at turn
            · obtain ⟨rfl, -⟩ := Prod.mk.inj (Option.some.inj turn)
              exact ⟨sent, header⟩
            · obtain ⟨read, past⟩ := readMessage_settles id inside rest left turn
              exact ⟨sent.then read, past header⟩
  | header =>
      rw [status] at turn
      have past : (h.s id).status ≠ .handshake := by rw [status]; decide
      rw [quiet past]
      obtain ⟨settles, stays⟩ := readMessage_settles id inside buffer left turn
      exact ⟨settles, stays past⟩
  | content =>
      rw [status] at turn
      have past : (h.s id).status ≠ .handshake := by rw [status]; decide
      rw [quiet past]
      obtain ⟨settles, stays⟩ := readContent_settles id inside buffer left turn
      exact ⟨settles, stays past⟩
  | wait =>
      rw [status] at turn
      have past : (h.s id).status ≠ .handshake := by rw [status]; decide
      rw [quiet past]
      obtain ⟨rfl, -⟩ := Prod.mk.inj (Option.some.inj turn)
      exact ⟨.refl h, past⟩
  | down =>
      rw [status] at turn
      have past : (h.s id).status ≠ .handshake := by rw [status]; decide
      rw [quiet past]
      obtain ⟨rfl, -⟩ := Prod.mk.inj (Option.some.inj turn)
      exact ⟨.refl h, past⟩

theorem flushed_past {id : Nat} {buffer : List UInt8} (past : (h.s id).status ≠ .handshake) :
    flushed h id buffer = [] :=
  if_neg fun shakes => past shakes.1

theorem socketLoop_settles (turns : Nat) (id : Nat) (inside : id < remoteMax) (fd : Int)
    (buffer : List UInt8) (done : socketLoop turns h id fd buffer = some h') :
    Settles (flushed h id buffer) h h' := by
  induction turns generalizing h buffer with
  | zero => contradiction
  | succ turns ih =>
      unfold socketLoop at done
      split at done
      · contradiction
      · rename_i turned
        obtain rfl := Option.some.inj done
        exact (socketTurn_settles id inside fd buffer none turned).1
      · rename_i middle left turned
        obtain ⟨first, past⟩ := socketTurn_settles id inside fd buffer (some left) turned
        have later := ih left done
        rw [flushed_past past] at later
        exact first.then later

def Distinct (map : HashMap) : Prop := ∀ i, ((map i).map KeyValue.nameKey).Nodup

theorem bucket_lt (name : Name) : bucket name < hashSize := Nat.mod_lt _ (by decide)

theorem distinct_hashNode (map : HashMap) (name : Name) (distinct : Distinct map) :
    Distinct (hashNode map name) := by
  unfold hashNode
  split_ifs with missing
  · intro i
    unfold hashInsert
    by_cases place : i = bucket name
    · rw [place, Function.update_self, List.map_cons, List.nodup_cons]
      refine ⟨fun inside => ?_, distinct _⟩
      obtain ⟨node, member, same⟩ := List.mem_map.mp inside
      rw [Option.isNone_iff_eq_none, hashSearch, List.find?_eq_none] at missing
      exact missing node member (decide_eq_true same)
    · rw [Function.update_of_ne place]
      exact distinct i
  · exact distinct

theorem nameKey_write (chain : List KeyValue) (name : Name) (value : UInt32) (queue : Option Queue) :
    (chain.map fun node => if node.nameKey = nameKey name then
        { node with value := value, queue := queue } else node).map KeyValue.nameKey =
      chain.map KeyValue.nameKey := by
  rw [List.map_map]
  refine List.map_congr_left fun node _ => ?_
  show KeyValue.nameKey (if node.nameKey = nameKey name then _ else node) = _
  split_ifs <;> rfl

theorem distinct_hashWrite (map : HashMap) (name : Name) (value : UInt32) (queue : Option Queue)
    (distinct : Distinct map) : Distinct (hashWrite map name value queue) := by
  intro i
  unfold hashWrite
  by_cases place : i = bucket name
  · rw [place, Function.update_self, nameKey_write]
    exact distinct _
  · rw [Function.update_of_ne place]
    exact distinct i

theorem inNames_hashNode (map : HashMap) (name : Name) (block : Nat) :
    inNames (hashNode map name) block = inNames map block := by
  unfold hashNode
  split_ifs
  · have added := inNames_update map (bucket name) block (bucket_lt name)
      ({ key := name, hash := nameHash name, value := 0, queue := none } :: map (bucket name))
    have chain : inChain ({ key := name, hash := nameHash name, value := 0, queue := none } ::
        map (bucket name)) block = inChain (map (bucket name)) block := Nat.zero_add _
    unfold hashInsert
    omega
  · rfl

theorem inChain_write (chain : List KeyValue) (name : Name) (value : UInt32) (queue : Option Queue)
    (block : Nat) (distinct : (chain.map KeyValue.nameKey).Nodup) (node : KeyValue)
    (found : chain.find? (fun node => node.nameKey = nameKey name) = some node) :
    inChain (chain.map fun node => if node.nameKey = nameKey name then
        { node with value := value, queue := queue } else node) block + inQueue node.queue block =
      inChain chain block + inQueue queue block := by
  induction chain with
  | nil => contradiction
  | cons first chain ih =>
      rw [List.map_cons, List.nodup_cons] at distinct
      unfold inChain at ih ⊢
      rw [List.map_cons, List.map_cons, List.map_cons, List.sum_cons, List.sum_cons]
      by_cases here : first.nameKey = nameKey name
      · rw [List.find?_cons_of_pos (by simpa using here)] at found
        obtain rfl := Option.some.inj found
        have others : (chain.map fun node => if node.nameKey = nameKey name then
            { node with value := value, queue := queue } else node) = chain := by
          refine (List.map_congr_left fun node inside => if_neg fun same => ?_).trans (List.map_id _)
          exact distinct.1 (List.mem_map.mpr ⟨node, inside, same.trans here.symm⟩)
        rw [if_pos here, others]
        show inQueue queue block + _ + inQueue first.queue block = _
        omega
      · rw [List.find?_cons_of_neg (by simpa using here)] at found
        have rest := ih distinct.2 found
        rw [if_neg here]
        omega

theorem inNames_hashWrite (map : HashMap) (name : Name) (value : UInt32) (queue : Option Queue)
    (block : Nat) (distinct : Distinct map) (there : (hashSearch map name).isSome) :
    inNames (hashWrite map name value queue) block +
        inQueue ((hashSearch map name).bind (·.queue)) block =
      inNames map block + inQueue queue block := by
  obtain ⟨node, found⟩ := Option.isSome_iff_exists.mp there
  have written := inChain_write (map (bucket name)) name value queue block (distinct _) node found
  have changed := inNames_update map (bucket name) block (bucket_lt name)
    ((map (bucket name)).map fun node => if node.nameKey = nameKey name then
      { node with value := value, queue := queue } else node)
  rw [found]
  show inNames (hashWrite map name value queue) block + inQueue node.queue block = _
  unfold hashWrite
  omega

theorem openLink_settles (fd : Int) (id : Nat) (inside : id < remoteMax) (connect : Bool)
    (done : openLink h fd id connect = some h') :
    Settles (if connect then [] else queued (h.s id).queue) h h' := by
  unfold openLink at done
  simp only at done
  have started :
      Settles [] h (handshake ((h.setSlave id { h.s id with fd := fd }).did (.start fd)) id) := by
    refine Settles.then ?_ (did_settles _ _ fun _ => rfl)
    refine Settles.then ?_ (did_settles _ _ fun _ => rfl)
    exact setSlave_settles h id inside _ rfl
  have slot : (handshake ((h.setSlave id { h.s id with fd := fd }).did (.start fd)) id).s id =
      { h.s id with fd := fd } := setSlave_self h id _
  cases connect with
  | true =>
      obtain rfl := Option.some.inj done
      exact started.then (setSlave_settles _ id inside _ rfl)
  | false =>
      have opened := started.then (setSlave_settles _ id inside
        { (handshake ((h.setSlave id { h.s id with fd := fd }).did (.start fd)) id).s id with
          status := .header } rfl)
      have sent := opened.trans (dispatchQueue_settles id inside done).1
      rw [List.nil_append, setSlave_self, slot] at sent
      exact sent

theorem updateName_names (name : Name) (handle : UInt32) (distinct : Distinct h.map)
    (done : updateName h name handle = some h') :
    Distinct h'.map ∧ ∀ block,
      inNames h'.map block + (blocks (waiting h name)).count block = inNames h.map block := by
  have node := distinct_hashNode h.map name distinct
  have there := isSome_hashNode_congr h.map name name rfl
  have same := hashSearch_hashNode h.map name name
  unfold updateName at done
  simp only at done
  rw [waiting, ← same]
  cases queue : (hashSearch (hashNode h.map name) name).bind (·.queue) with
  | none =>
      simp only [queue, Option.some.injEq] at done
      rw [← done]
      refine ⟨distinct_hashWrite _ _ _ _ node, fun block => ?_⟩
      have written := inNames_hashWrite _ name handle none block node there
      rw [queue, inNames_hashNode, inQueue_none, Nat.add_zero, Nat.add_zero] at written
      have nothing : (blocks (queued none)).count block = 0 := rfl
      rw [nothing, Nat.add_zero]
      exact written
  | some waits =>
      simp only [queue, Option.map_eq_some_iff, Prod.exists] at done
      obtain ⟨middle, left, dispatched, rfl⟩ := done
      obtain ⟨_, _, map, _⟩ := dispatchNameQueue_bound _ middle name handle waits left dispatched
      simp only [releaseQueue_eq, map]
      have first := distinct_hashWrite _ name handle (some waits) node
      have found : (hashSearch (hashWrite (hashNode h.map name) name handle (some waits)) name).isSome := by
        rw [isSome_hashWrite]
        exact there
      have kept : (hashSearch (hashWrite (hashNode h.map name) name handle (some waits)) name).bind
          (·.queue) = some waits := by
        rw [hashSearch_hashWrite, if_pos rfl]
        obtain ⟨node, at_⟩ := Option.isSome_iff_exists.mp there
        rw [at_]
        rfl
      refine ⟨distinct_hashWrite _ _ _ _ first, fun block => ?_⟩
      have one := inNames_hashWrite _ name handle (some waits) block node there
      have two := inNames_hashWrite _ name handle none block first found
      rw [queue, inNames_hashNode] at one
      rw [kept, inQueue_none] at two
      show _ + inQueue (some waits) block = _
      omega

-- What is written to a link when a name is bound to a handle there.
def sentOn (h : Harbor) (name : Name) (handle : UInt32) : List HarborMsg :=
  if (h.s (handle >>> 24).toNat).fd ≠ 0 then waiting h name else []

theorem harbor_lt (handle : UInt32) : (handle >>> 24).toNat < remoteMax := by
  have bound := handle.toNat_lt
  rw [Words.toNat_shiftRight_lt handle 24 (by decide)]
  show handle.toNat / 2 ^ 24 < 256
  omega

theorem updateName_total (name : Name) (handle : UInt32) (distinct : Distinct h.map)
    (done : updateName h name handle = some h') (block : Nat) :
    total h' block + (blocks (sentOn h name handle)).count block = total h block := by
  have names := (updateName_names name handle distinct done).2 block
  obtain ⟨-, -, ⟨empty, log, slots⟩ | ⟨-, bound⟩⟩ := updateName_cases h h' name handle done
  · have nothing : sentOn h name handle = [] := by
      unfold sentOn
      rw [empty, ite_self]
    rw [empty] at names
    rw [nothing, total, total, log, slots]
    show _ + 0 = _
    change _ + 0 = _ at names
    omega
  · cases bound with
    | dropped free _ log slots =>
        obtain ⟨text, log⟩ := log
        have nothing : sentOn h name handle = [] := if_neg (not_not.mpr free)
        rw [nothing, total, total, log, slots, ended_append]
        have errors : ended (.error text :: (waiting h name).map freed) block =
            (blocks (waiting h name)).count block := by
          rw [← ended_freed]
          exact List.countP_cons_of_neg Bool.false_ne_true
        rw [errors]
        show _ + 0 = _
        omega
    | moved free queue contents log slots =>
        have nothing : sentOn h name handle = [] := if_neg (not_not.mpr free)
        have moved := inSlots_update h.s _ block (harbor_lt handle)
          { h.s (handle >>> 24).toNat with queue := queue }
        have all : inQueue queue block = inQueue (h.s (handle >>> 24).toNat).queue block +
            (blocks (waiting h name)).count block := by
          unfold inQueue
          rw [contents, blocks, List.map_append, List.count_append]
          rfl
        rw [nothing, total, total, log, slots]
        show _ + 0 = _
        change _ + inQueue (h.s (handle >>> 24).toNat).queue block = _ + inQueue queue block at moved
        omega
    | sent linked log slots =>
        have all : sentOn h name handle = waiting h name := if_pos linked
        have writes : ended ((waiting h name).map fun m =>
            written (h.s (handle >>> 24).toNat).fd (m.complete handle)) block = 0 := by
          refine List.countP_eq_zero.mpr fun effect inside => ?_
          obtain ⟨m, -, rfl⟩ := List.mem_map.mp inside
          exact Bool.false_ne_true
        rw [all, total, total, log, slots, ended_append, writes]
        omega

end Pskynet.Harbor
