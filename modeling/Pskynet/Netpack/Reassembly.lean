import Pskynet.Netpack.Filter

set_option autoImplicit false

namespace Pskynet.Netpack

open Memory

def format : Framing.Format where
  header := 2
  size := fun
    | [a, b] => some (readSize a b)
    | _ => none
  pos := by decide

def pack (fd : Int) (payload : List UInt8) : Pack :=
  { id := fd, size := payload.length, buffer := payload }

theorem next_body (a b : UInt8) (body : List UInt8) :
    Framing.next format (a :: b :: body) =
      if readSize a b ≤ body.length then
        some (body.take (readSize a b), body.drop (readSize a b))
      else none := by
  simp only [Framing.next, format, List.take_succ_cons, List.take_zero, List.length_cons,
    List.drop_succ_cons, List.drop_zero, Nat.add_comm 2 (readSize a b)]
  by_cases whole : readSize a b ≤ body.length <;> simp [whole]

theorem split_nil : Framing.split format [] = ([], []) := Framing.split_none format [] rfl

theorem split_single (byte : UInt8) : Framing.split format [byte] = ([], [byte]) :=
  Framing.split_none format [byte] rfl

theorem split_unfinished (a b : UInt8) (body : List UInt8) (short : body.length < readSize a b) :
    Framing.split format (a :: b :: body) = ([], a :: b :: body) := by
  apply Framing.split_none
  rw [next_body, if_neg (by omega)]

theorem split_whole (a b : UInt8) (body : List UInt8) (whole : readSize a b ≤ body.length) :
    Framing.split format (a :: b :: body) =
      (body.take (readSize a b) :: (Framing.split format (body.drop (readSize a b))).1,
        (Framing.split format (body.drop (readSize a b))).2) := by
  apply Framing.split_some
  rw [next_body, if_pos whole]

def entries (q : Queue) (fd : Int) : List Uncomplete :=
  (q.hash (hashFd fd)).filter fun uc => uc.pack.id = fd

def Hashed (q : Queue) : Prop := ∀ h uc, uc ∈ q.hash h → hashFd uc.pack.id = h

def Keeps (fd : Int) : List UInt8 → Uncomplete → Prop
  | [], _ => False
  | [byte], uc => uc.pack.id = fd ∧ uc.read = -1 ∧ uc.header = byte.toNat
  | a :: b :: body, uc =>
      uc.pack.id = fd ∧ uc.read = body.length ∧ uc.pack.size = readSize a b ∧
        uc.pack.buffer.length = readSize a b ∧ uc.pack.buffer.take body.length = body ∧
        body.length < readSize a b

def Holds (fd : Int) (rest : List UInt8) : List Uncomplete → Prop
  | [] => rest = []
  | [uc] => Keeps fd rest uc
  | _ => False

theorem entries_link (q : Queue) (fd other : Int) (uc : Uncomplete) (same : uc.pack.id = fd) :
    entries (q.link fd uc) other = if other = fd then uc :: entries q fd else entries q other := by
  unfold entries Queue.link
  by_cases here : other = fd
  · subst here
    simp [same]
  · by_cases clash : hashFd other = hashFd fd
    · have skip : ¬fd = other := fun h => here h.symm
      simp [here, clash, same, skip]
    · simp [here, clash]

theorem link_hashed (q : Queue) (fd : Int) (uc : Uncomplete) (same : uc.pack.id = fd)
    (hashed : Hashed q) : Hashed (q.link fd uc) := by
  intro h u inside
  by_cases here : h = hashFd fd
  · subst here
    simp only [Queue.link, Function.update_self, List.mem_cons] at inside
    rcases inside with rfl | old
    · rw [same]
    · exact hashed _ u old
  · exact hashed h u (by simpa [Queue.link, here] using inside)

theorem unlink_none (fd : Int) (chain : List Uncomplete) (missing : unlink fd chain = none) :
    chain.filter (fun uc => uc.pack.id = fd) = [] := by
  induction chain with
  | nil => rfl
  | cons uc rest ih =>
    unfold unlink at missing
    split_ifs at missing with same
    simp only [Option.map_eq_none_iff] at missing
    simp [same, ih missing]

theorem unlink_some (fd : Int) (chain left : List Uncomplete) (uc : Uncomplete)
    (found : unlink fd chain = some (uc, left)) :
    chain.filter (fun u => u.pack.id = fd) = uc :: left.filter (fun u => u.pack.id = fd) ∧
      (∀ other, other ≠ fd →
        left.filter (fun u => u.pack.id = other) = chain.filter (fun u => u.pack.id = other)) ∧
      ∀ u ∈ left, u ∈ chain := by
  induction chain generalizing left with
  | nil => simp [unlink] at found
  | cons u rest ih =>
    unfold unlink at found
    split_ifs at found with same
    · simp only [Option.some.injEq, Prod.mk.injEq] at found
      obtain ⟨rfl, rfl⟩ := found
      refine ⟨by simp [same], ?_, fun v inside => by simp [inside]⟩
      intro other different
      have skip : ¬u.pack.id = other := fun h => different (h.symm.trans same)
      simp [skip]
    · simp only [Option.map_eq_some_iff, Prod.mk.injEq, Prod.exists] at found
      obtain ⟨v, after, found, rfl, rfl⟩ := found
      obtain ⟨front, others, members⟩ := ih after found
      refine ⟨by simpa [same] using front, ?_, ?_⟩
      · intro other different
        simp [List.filter_cons, others other different]
      · intro w inside
        rcases List.mem_cons.mp inside with rfl | old
        · simp
        · simp [members w old]

theorem findUncomplete_none (q : Queue) (fd : Int) (missing : findUncomplete q fd = none) :
    entries q fd = [] := by
  simp only [findUncomplete, Option.map_eq_none_iff] at missing
  exact unlink_none fd _ missing

theorem findUncomplete_some (q left : Queue) (fd : Int) (uc : Uncomplete)
    (found : findUncomplete q fd = some (uc, left)) :
    entries q fd = uc :: entries left fd ∧ left.ring = q.ring ∧
      (∀ other, other ≠ fd → entries left other = entries q other) ∧ (Hashed q → Hashed left) := by
  simp only [findUncomplete, Option.map_eq_some_iff, Prod.mk.injEq, Prod.exists] at found
  obtain ⟨u, chain, unlinked, rfl, rfl⟩ := found
  obtain ⟨front, others, members⟩ := unlink_some fd _ chain u unlinked
  refine ⟨by simpa [entries] using front, rfl, ?_, ?_⟩
  · intro other different
    by_cases clash : hashFd other = hashFd fd
    · simpa [entries, clash] using others other different
    · simp [entries, clash]
  · intro hashed h v inside
    by_cases here : h = hashFd fd
    · subst here
      simp only [Function.update_self] at inside
      exact hashed _ v (members v inside)
    · exact hashed h v (by simpa [here] using inside)

theorem pushData_hash (q : Option Queue) (fd : Int) (buffer : List UInt8) (size : Nat)
    (clone : Bool) : (pushData q fd buffer size clone).hash = (getQueue q).hash := by
  simp only [pushData]
  split_ifs <;> rfl

theorem expandQueue_ring (q : Queue) :
    (expandQueue q).ring.contents = q.ring.window q.ring.cap :=
  CircularBuffer.contents_regrow _ _ _ _

theorem pushData_contents (q : Option Queue) (fd : Int) (buffer : List UInt8) (size : Nat)
    (clone : Bool) :
    (pushData q fd buffer size clone).ring.contents = (getQueue q).ring.contents ++
      [{ id := fd
         size := size
         buffer := if clone then memcpy (malloc size) 0 (buffer.take size) else buffer }] := by
  simp only [pushData]
  generalize ({ id := fd, size := size, buffer := _ } : Pack) = last
  split_ifs with full
  · have exactly := (CircularBuffer.put_full_iff _ _).mp full
    have pushed := CircularBuffer.window_put (getQueue q).ring last
    rw [exactly] at pushed
    rw [expandQueue_ring, ← pushed]
    rfl
  · have room := (getQueue q).ring.count_lt
    rw [CircularBuffer.put_full_iff] at full
    exact CircularBuffer.contents_put _ _ (by omega)

theorem pushData_ring (q : Option Queue) (fd : Int) (buffer : List UInt8) (size : Nat)
    (clone : Bool) (payload : List UInt8)
    (same : (if clone then memcpy (malloc size) 0 (buffer.take size) else buffer) = payload)
    (length : payload.length = size) :
    (pushData q fd buffer size clone).ring.contents =
      (getQueue q).ring.contents ++ [pack fd payload] := by
  rw [pushData_contents, same, pack, length]

-- `q'` is `q` after the packets of `fd` were queued and `rest` was left in the table.
structure Fed (q q' : Queue) (fd : Int) (packets : List (List UInt8)) (rest : List UInt8) :
    Prop where
  ring : q'.ring.contents = q.ring.contents ++ packets.map (pack fd)
  entry : Holds fd rest (entries q' fd)
  others : ∀ other, other ≠ fd → entries q' other = entries q other
  hashed : Hashed q → Hashed q'

theorem saveUncomplete_fed (q : Option Queue) (fd : Int) (fill : Uncomplete → Uncomplete)
    (rest : List UInt8) (clear : entries (getQueue q) fd = [])
    (same : ∀ uc, (fill uc).pack.id = uc.pack.id)
    (keeps : ∀ uc, uc.pack.id = fd → Keeps fd rest (fill uc)) :
    Fed (getQueue q) (saveUncomplete q fd fill) fd [] rest := by
  refine ⟨by simp [saveUncomplete, Queue.link], ?_, ?_, ?_⟩
  · rw [saveUncomplete, entries_link _ _ _ _ (by rw [same]), if_pos rfl, clear]
    exact keeps _ rfl
  · intro other different
    rw [saveUncomplete, entries_link _ _ _ _ (by rw [same]), if_neg different]
  · exact link_hashed _ _ _ (by rw [same])

theorem saveHeader_fed (q : Option Queue) (fd : Int) (byte : UInt8)
    (clear : entries (getQueue q) fd = []) :
    Fed (getQueue q) (saveHeader q fd byte) fd [] [byte] :=
  saveUncomplete_fed q fd _ [byte] clear (fun _ => rfl) fun _ here => ⟨here, rfl, rfl⟩

theorem saveBody_fed (q : Option Queue) (fd : Int) (a b : UInt8) (body : List UInt8)
    (clear : entries (getQueue q) fd = []) (short : body.length < readSize a b) :
    Fed (getQueue q) (saveBody q fd (readSize a b) body) fd [] (a :: b :: body) := by
  refine saveUncomplete_fed q fd _ _ clear (fun _ => rfl) fun _ here => ?_
  have fits : 0 + body.length ≤ (malloc (readSize a b)).length := by simp; omega
  have copied := take_memcpy (malloc (readSize a b)) body 0 fits
  refine ⟨here, rfl, rfl, ?_, ?_, short⟩
  · rw [length_memcpy _ _ _ fits, length_malloc]
  · simpa using copied

theorem Fed.push (q : Option Queue) {fd : Int} {buffer : List UInt8} {size : Nat} {clone : Bool}
    {payload : List UInt8} {q' : Queue} {packets : List (List UInt8)} {rest : List UInt8}
    (later : Fed (pushData q fd buffer size clone) q' fd packets rest)
    (same : (if clone then memcpy (malloc size) 0 (buffer.take size) else buffer) = payload)
    (length : payload.length = size) :
    Fed (getQueue q) q' fd (payload :: packets) rest := by
  have hash := pushData_hash q fd buffer size clone
  refine ⟨?_, later.entry, ?_, ?_⟩
  · rw [later.ring, pushData_ring q fd buffer size clone payload same length]
    simp
  · intro other different
    rw [later.others other different]
    simp [entries, hash]
  · intro hashed
    apply later.hashed
    intro h uc inside
    exact hashed h uc (by rwa [hash] at inside)

theorem cloned (size : Nat) (buffer : List UInt8) (enough : size ≤ buffer.length) :
    memcpy (malloc size) 0 (buffer.take size) = buffer.take size := by
  have full := memcpy_full (malloc size) (buffer.take size) 0 (by simp; omega)
  simpa using full

theorem pushMore_fed (q : Queue) (fd : Int) (buffer : List UInt8) (clear : entries q fd = []) :
    Fed q (pushMore q fd buffer) fd (Framing.split format buffer).1
      (Framing.split format buffer).2 := by
  induction size : buffer.length using Nat.strong_induction_on generalizing q buffer with
  | _ n ih =>
    match buffer, size with
    | [], _ =>
      rw [split_nil, pushMore]
      exact ⟨by simp, by rw [clear]; rfl, fun _ _ => rfl, id⟩
    | [byte], _ =>
      rw [split_single, pushMore]
      exact saveHeader_fed (some q) fd byte clear
    | a :: b :: body, size =>
      rw [pushMore]
      by_cases short : body.length < readSize a b
      · rw [split_unfinished a b body short]
        simp only [short, if_true]
        exact saveBody_fed (some q) fd a b body clear short
      · have whole : readSize a b ≤ body.length := by omega
        rw [split_whole a b body whole]
        simp only [short, if_false]
        have clear' : entries (pushData (some q) fd body (readSize a b) true) fd = [] := by
          rw [entries, pushData_hash]
          exact clear
        have later : Fed (pushData (some q) fd body (readSize a b) true)
            (if 0 < (body.drop (readSize a b)).length then
              pushMore (pushData (some q) fd body (readSize a b) true) fd (body.drop (readSize a b))
            else pushData (some q) fd body (readSize a b) true) fd
            (Framing.split format (body.drop (readSize a b))).1
            (Framing.split format (body.drop (readSize a b))).2 := by
          split_ifs with left
          · exact ih _ (by simp only [List.length_cons, List.length_drop] at *; omega) _ _ clear' rfl
          · have nothing : body.drop (readSize a b) = [] := List.length_eq_zero_iff.mp (by omega)
            rw [nothing, split_nil]
            exact ⟨by simp, by rw [clear']; rfl, fun _ _ => rfl, id⟩
        exact Fed.push (some q) later (cloned _ _ whole) (by simp [whole])

-- What a chunk of `fd` does, by the result that `filter_data_` returns with it.
def Yields (q q' : Queue) (fd : Int) (packets : List (List UInt8)) : Result → Prop
  | .nothing => packets = [] ∧ q'.ring.contents = q.ring.contents
  | .data fd' buffer size =>
      fd' = fd ∧ packets = [buffer.take size] ∧ q'.ring.contents = q.ring.contents
  | .more => q'.ring.contents = q.ring.contents ++ packets.map (pack fd)
  | _ => False

structure Filtered (q q' : Queue) (fd : Int) (result : Result) (packets : List (List UInt8))
    (rest : List UInt8) : Prop where
  yields : Yields q q' fd packets result
  entry : Holds fd rest (entries q' fd)
  others : ∀ other, other ≠ fd → entries q' other = entries q other
  hashed : Hashed q → Hashed q'

theorem Fed.filtered {q q' : Queue} {fd : Int} {packets : List (List UInt8)} {rest : List UInt8}
    (fed : Fed q q' fd packets rest) : Filtered q q' fd .more packets rest :=
  ⟨fed.ring, fed.entry, fed.others, fed.hashed⟩

theorem Fed.nothing {q q' : Queue} {fd : Int} {rest : List UInt8} (fed : Fed q q' fd [] rest) :
    Filtered q q' fd .nothing [] rest :=
  ⟨⟨rfl, by simpa using fed.ring⟩, fed.entry, fed.others, fed.hashed⟩

theorem fillUncomplete_filtered (q : Queue) (fd : Int) (uc : Uncomplete) (a b : UInt8)
    (body chunk : List UInt8) (clear : entries q fd = []) (same : uc.pack.id = fd)
    (read : uc.read = body.length) (size : uc.pack.size = readSize a b)
    (block : uc.pack.buffer.length = readSize a b)
    (kept : uc.pack.buffer.take body.length = body) (room : body.length ≤ readSize a b) :
    Filtered q (fillUncomplete q fd uc chunk).1 fd (fillUncomplete q fd uc chunk).2
      (Framing.split format (a :: b :: (body ++ chunk))).1
      (Framing.split format (a :: b :: (body ++ chunk))).2 := by
  have start : uc.read.toNat = body.length := by rw [read, Int.toNat_natCast]
  simp only [fillUncomplete, start, size]
  by_cases short : chunk.length < readSize a b - body.length
  · have fits : body.length + chunk.length ≤ uc.pack.buffer.length := by omega
    have copied := take_memcpy uc.pack.buffer chunk body.length fits
    simp only [short, if_true]
    rw [split_unfinished a b (body ++ chunk) (by rw [List.length_append]; omega)]
    refine ⟨⟨rfl, rfl⟩, ?_, ?_, ?_⟩
    · rw [entries_link _ _ _ _ (by exact same), if_pos rfl, clear]
      refine ⟨same, by simp, rfl, ?_, ?_, by rw [List.length_append]; omega⟩
      · rw [length_memcpy _ _ _ fits, block]
      · rw [List.length_append, copied, kept]
    · intro other different
      rw [entries_link _ _ _ _ (by exact same), if_neg different]
    · exact link_hashed _ _ _ same
  · have whole : readSize a b ≤ (body ++ chunk).length := by rw [List.length_append]; omega
    have need : readSize a b = body.length + (readSize a b - body.length) := by omega
    have filled : memcpy uc.pack.buffer body.length (chunk.take (readSize a b - body.length)) =
        (body ++ chunk).take (readSize a b) := by
      rw [memcpy_full, kept, need, List.take_length_add_append, Nat.add_sub_cancel_left]
      rw [List.length_take]
      omega
    have left : chunk.drop (readSize a b - body.length) = (body ++ chunk).drop (readSize a b) := by
      rw [need, List.drop_length_add_append, Nat.add_sub_cancel_left]
    simp only [short, if_false]
    rw [filled, left, split_whole a b (body ++ chunk) whole]
    split_ifs with done
    · rw [List.length_eq_zero_iff.mp done, split_nil]
      refine ⟨⟨rfl, ?_, rfl⟩, by rw [clear]; rfl, fun _ _ => rfl, id⟩
      simp
    · have clear' : entries
          (pushData (some q) fd ((body ++ chunk).take (readSize a b)) (readSize a b) false) fd = [] := by
        rw [entries, pushData_hash]
        exact clear
      have more := pushMore_fed _ fd ((body ++ chunk).drop (readSize a b)) clear'
      exact (Fed.push (some q) more rfl (List.length_take_of_le whole)).filtered

theorem filterData_filtered (q : Option Queue) (fd : Int) (rest chunk : List UInt8)
    (nonempty : chunk ≠ []) (holds : Holds fd rest (entries (getQueue q) fd)) :
    Filtered (getQueue q) (getQueue (filterData q fd chunk).1) fd (filterData q fd chunk).2
      (Framing.split format (rest ++ chunk)).1 (Framing.split format (rest ++ chunk)).2 := by
  unfold filterData
  cases found : q.bind (findUncomplete · fd) with
  | none =>
    have clear : entries (getQueue q) fd = [] := by
      cases q with
      | none => simp [getQueue, entries]
      | some q => exact findUncomplete_none q fd (by simpa using found)
    rw [clear] at holds
    obtain rfl : rest = [] := holds
    match chunk, nonempty with
    | [byte], _ =>
      rw [List.nil_append, split_single]
      exact (saveHeader_fed q fd byte clear).nothing
    | a :: b :: body, _ =>
      rw [List.nil_append]
      simp only
      by_cases short : body.length < readSize a b
      · rw [split_unfinished a b body short]
        simp only [short, if_true]
        exact (saveBody_fed q fd a b body clear short).nothing
      · have whole : readSize a b ≤ body.length := by omega
        rw [split_whole a b body whole]
        simp only [short, if_false]
        split_ifs with exactly
        · have copy := cloned (readSize a b) body whole
          rw [List.take_of_length_le (by omega)] at copy
          rw [List.drop_of_length_le (by omega), split_nil, copy]
          refine ⟨⟨rfl, ?_, rfl⟩, by rw [clear]; rfl, fun _ _ => rfl, id⟩
          simp [exactly]
        · have clear' : entries (pushData q fd body (readSize a b) true) fd = [] := by
            rw [entries, pushData_hash]
            exact clear
          have more := pushMore_fed _ fd (body.drop (readSize a b)) clear'
          exact (Fed.push q more (cloned _ _ whole) (by simp [whole])).filtered
  | some pair =>
    obtain ⟨uc, left⟩ := pair
    obtain ⟨queue, rfl, found⟩ := Option.bind_eq_some_iff.mp found
    obtain ⟨front, ring, others, hashed⟩ := findUncomplete_some queue left fd uc found
    have first : entries queue fd = uc :: entries left fd := front
    simp only [getQueue] at holds ⊢
    rw [first] at holds
    have clear : entries left fd = [] := by
      cases more : entries left fd with
      | nil => rfl
      | cons u rest =>
        rw [more] at holds
        exact holds.elim
    rw [clear] at holds
    have back : ∀ q' result packets rest, Filtered left q' fd result packets rest →
        Filtered queue q' fd result packets rest := by
      intro q' result packets rest filtered
      refine ⟨?_, filtered.entry, ?_, fun h => filtered.hashed (hashed h)⟩
      · have yields := filtered.yields
        cases result <;> simp only [Yields, ring] at yields ⊢ <;> exact yields
      · intro other different
        rw [filtered.others other different, others other different]
    match rest, holds with
    | [byte], holds =>
      obtain ⟨same, read, header⟩ := holds
      match chunk, nonempty with
      | next :: chunk, _ =>
        have size : next.toNat ||| uc.header <<< 8 = readSize byte next := by
          rw [header, readSize, Nat.or_comm]
        have negative : uc.read < 0 := by omega
        simp only [negative, if_true, size]
        apply back
        exact fillUncomplete_filtered left fd _ byte next [] chunk clear same rfl rfl (by simp)
          (by simp) (by simp)
    | a :: b :: body, holds =>
      obtain ⟨same, read, size, block, kept, short⟩ := holds
      have positive : ¬uc.read < 0 := by omega
      simp only [positive, if_false, List.cons_append]
      apply back
      exact fillUncomplete_filtered left fd uc a b body chunk clear same read size block kept
        short.le

structure Consumer where
  queue : Option Queue
  delivered : List (Int × List UInt8)

def Consumer.new : Consumer := { queue := none, delivered := [] }

def deliver (pack : Pack) : Int × List UInt8 := (pack.id, pack.buffer.take pack.size)

def popLoop : Nat → Option Queue → List (Int × List UInt8) → Option Queue × List (Int × List UInt8)
  | 0, q, delivered => (q, delivered)
  | turns + 1, q, delivered =>
      match lpop q with
      | none => (q, delivered)
      | some (pack, q) => popLoop turns (some q) (delivered ++ [deliver pack])

def Consumer.receive (c : Consumer) (message : SocketMessage) : Consumer :=
  let (q, result) := lfilter c.queue message
  match result with
  | .data fd buffer size => { queue := q, delivered := c.delivered ++ [(fd, buffer.take size)] }
  | .more =>
      let (q, delivered) := popLoop (getQueue q).ring.count q c.delivered
      { queue := q, delivered := delivered }
  | _ => { c with queue := q }

def Consumer.chunks (c : Consumer) (events : List (Int × List UInt8)) : Consumer :=
  events.foldl (fun c event => c.receive (.data event.1 event.2)) c

def Consumer.payloads (c : Consumer) (fd : Int) : List (List UInt8) :=
  (c.delivered.filter fun packet => packet.1 = fd).map Prod.snd

def stream (events : List (Int × List UInt8)) (fd : Int) : List UInt8 :=
  (events.filter fun event => event.1 = fd).flatMap Prod.snd

theorem lpop_none (q : Option Queue) (popped : lpop q = none) :
    (getQueue q).ring.contents = [] := by
  cases q with
  | none => simp [getQueue]
  | some q =>
    simp only [lpop, Option.bind_some, Option.map_eq_none_iff] at popped
    exact (CircularBuffer.pop_eq_none_iff _).mp popped

theorem lpop_some (q : Option Queue) (first : Pack) (left : Queue)
    (popped : lpop q = some (first, left)) :
    (getQueue q).ring.contents = first :: left.ring.contents ∧ left.hash = (getQueue q).hash := by
  cases q with
  | none => simp [lpop] at popped
  | some q =>
    simp only [lpop, Option.bind_some, Option.map_eq_some_iff, Prod.mk.injEq, Prod.exists] at popped
    obtain ⟨_, ring, popped, rfl, rfl⟩ := popped
    exact ⟨CircularBuffer.contents_of_pop _ _ _ popped, rfl⟩

theorem popLoop_empties (turns : Nat) (q : Option Queue) (delivered : List (Int × List UInt8))
    (enough : (getQueue q).ring.count ≤ turns) :
    (getQueue (popLoop turns q delivered).1).hash = (getQueue q).hash ∧
      (getQueue (popLoop turns q delivered).1).ring.contents = [] ∧
      (popLoop turns q delivered).2 = delivered ++ (getQueue q).ring.contents.map deliver := by
  induction turns generalizing q delivered with
  | zero =>
    have empty : (getQueue q).ring.contents = [] := by
      rw [← List.length_eq_zero_iff, CircularBuffer.length_contents]
      omega
    simp [popLoop, empty]
  | succ turns ih =>
    unfold popLoop
    cases popped : lpop q with
    | none => simp [lpop_none q popped]
    | some pair =>
      obtain ⟨first, left⟩ := pair
      obtain ⟨front, hash⟩ := lpop_some q first left popped
      have size : (getQueue q).ring.count = left.ring.count + 1 := by
        rw [← CircularBuffer.length_contents, front, List.length_cons,
          CircularBuffer.length_contents]
      obtain ⟨hash', empty, all⟩ := ih (some left) (delivered ++ [deliver first])
        (by simp only [getQueue]; omega)
      refine ⟨by rw [hash']; exact hash, empty, ?_⟩
      rw [all, front]
      simp [getQueue]

structure Received (c : Consumer) (bytes : Int → List UInt8) : Prop where
  empty : (getQueue c.queue).ring.contents = []
  hashed : Hashed (getQueue c.queue)
  entry : ∀ fd, Holds fd (Framing.split format (bytes fd)).2 (entries (getQueue c.queue) fd)
  payloads : ∀ fd, c.payloads fd = (Framing.split format (bytes fd)).1

theorem new_received : Received .new (fun _ => []) := by
  constructor <;>
    simp [Consumer.new, getQueue, Hashed, entries, Holds, Consumer.payloads, split_nil]

theorem payloads_append (c : Consumer) (queue : Option Queue) (fd other : Int)
    (packets : List (List UInt8)) :
    Consumer.payloads
        { queue := queue, delivered := c.delivered ++ packets.map fun packet => (fd, packet) } other =
      c.payloads other ++ if other = fd then packets else [] := by
  by_cases same : other = fd
  · subst same
    simp [Consumer.payloads, List.filter_map, Function.comp_def]
  · have skip : ¬fd = other := fun h => same h.symm
    simp [Consumer.payloads, List.filter_map, Function.comp_def, same, skip]

theorem receive_received (c : Consumer) (bytes : Int → List UInt8) (fd : Int) (chunk : List UInt8)
    (nonempty : chunk ≠ []) (received : Received c bytes) :
    Received (c.receive (.data fd chunk)) (Function.update bytes fd (bytes fd ++ chunk)) := by
  obtain ⟨empty, hashed, entry, payloads⟩ := received
  have filtered := filterData_filtered c.queue fd _ chunk nonempty (entry fd)
  have joined := Framing.split_append format (bytes fd) chunk
  obtain ⟨yields, mine, others, hashed'⟩ := filtered
  -- Whatever the result is, the packets are delivered and the queue is empty again.
  have outcome : (getQueue (c.receive (.data fd chunk)).queue).ring.contents = [] ∧
      (getQueue (c.receive (.data fd chunk)).queue).hash =
        (getQueue (filterData c.queue fd chunk).1).hash ∧
      (c.receive (.data fd chunk)).delivered = c.delivered ++
        (Framing.split format ((Framing.split format (bytes fd)).2 ++ chunk)).1.map
          fun packet => (fd, packet) := by
    unfold Consumer.receive lfilter
    cases result : (filterData c.queue fd chunk).2 with
    | nothing =>
      rw [result] at yields
      simp only [result]
      exact ⟨by rw [yields.2, empty], trivial, by simp [yields.1]⟩
    | data fd' buffer size =>
      rw [result] at yields
      obtain ⟨rfl, packets, ring⟩ := yields
      simp only [result]
      exact ⟨by rw [ring, empty], trivial, by simp [packets]⟩
    | more =>
      rw [result] at yields
      obtain ⟨hash, gone, all⟩ := popLoop_empties
        (getQueue (filterData c.queue fd chunk).1).ring.count (filterData c.queue fd chunk).1
        c.delivered (le_refl _)
      simp only [result]
      refine ⟨gone, hash, ?_⟩
      have ring : (getQueue (filterData c.queue fd chunk).1).ring.contents = _ := yields
      rw [all, ring, empty]
      simp [Function.comp_def, deliver, pack]
    | opened | closed | error =>
      rw [result] at yields
      exact yields.elim
  obtain ⟨gone, hash, delivered⟩ := outcome
  have table : ∀ other, entries (getQueue (c.receive (.data fd chunk)).queue) other =
      entries (getQueue (filterData c.queue fd chunk).1) other := by
    intro other
    simp [entries, hash]
  refine ⟨gone, ?_, ?_, ?_⟩
  · intro h uc inside
    exact hashed' hashed h uc (by rwa [hash] at inside)
  · intro other
    rw [table]
    by_cases same : other = fd
    · subst same
      simpa [joined] using mine
    · rw [others other same, Function.update_of_ne same]
      exact entry other
  · intro other
    have appended := payloads_append c (c.receive (.data fd chunk)).queue fd other
      (Framing.split format ((Framing.split format (bytes fd)).2 ++ chunk)).1
    rw [← delivered] at appended
    by_cases same : other = fd
    · subst same
      simpa [joined, payloads other] using appended
    · simpa [same, payloads other] using appended

theorem chunks_received (events : List (Int × List UInt8)) (c : Consumer)
    (bytes : Int → List UInt8) (nonempty : ∀ event ∈ events, event.2 ≠ [])
    (received : Received c bytes) :
    Received (c.chunks events) (fun fd => bytes fd ++ stream events fd) := by
  induction events generalizing c bytes with
  | nil => simpa [Consumer.chunks, stream] using received
  | cons event rest ih =>
    obtain ⟨fd, chunk⟩ := event
    have first := receive_received c bytes fd chunk (nonempty (fd, chunk) (by simp)) received
    have later := ih _ _ (fun e inside => nonempty e (by simp [inside])) first
    have same : (fun other => Function.update bytes fd (bytes fd ++ chunk) other ++ stream rest other) =
        fun other => bytes other ++ stream ((fd, chunk) :: rest) other := by
      funext other
      by_cases here : other = fd
      · subst here
        simp [stream]
      · have skip : ¬fd = other := fun h => here h.symm
        simp [stream, here, skip]
    rw [same] at later
    exact later

def writeSize (length : Nat) : List UInt8 := [(length >>> 8).toUInt8, length.toUInt8]

def frame (payload : List UInt8) : List UInt8 := writeSize payload.length ++ payload

theorem size_writeSize (length : Nat) (bound : length < 65536) :
    format.size (writeSize length) = some length := by
  have low : length % 256 < 2 ^ 8 := Nat.mod_lt _ (by decide)
  have high : length / 256 % 256 = length / 256 := Nat.mod_eq_of_lt (by omega)
  simp only [format, writeSize, readSize, Nat.toUInt8_eq, UInt8.toNat_ofNat',
    Nat.shiftRight_eq_div_pow, Nat.shiftLeft_eq, Option.some.injEq]
  change (length / 256 % 256) * 2 ^ 8 ||| length % 256 = length
  rw [high, Nat.mul_comm, ← Nat.two_pow_add_eq_or_of_lt low]
  omega

theorem split_frames (packets : List (List UInt8)) (rest : List UInt8)
    (sizes : ∀ payload ∈ packets, payload.length < 65536) :
    Framing.split format (packets.flatMap frame ++ rest) =
      (packets ++ (Framing.split format rest).1, (Framing.split format rest).2) := by
  have known : ∀ payload ∈ packets, format.size (writeSize payload.length) = some payload.length := by
    intro payload inside
    exact size_writeSize payload.length (sizes payload inside)
  have framed := Framing.split_packets format packets (fun payload => writeSize payload.length)
    (fun payload => payload) (fun _ _ => rfl) known rest
  rwa [List.map_id'] at framed

theorem split_cut (rest more payload : List UInt8) (size : payload.length < 65536)
    (cut : rest ++ more = frame payload) (missing : more ≠ []) :
    Framing.split format rest = ([], rest) := by
  apply Framing.split_none
  cases whole : Framing.next format rest with
  | none => rfl
  | some pair =>
    obtain ⟨body, left⟩ := pair
    have longer := Framing.next_append format rest body left more whole
    have packet := Framing.next_packet format (writeSize payload.length) payload [] rfl
      (size_writeSize _ size)
    rw [List.append_nil] at packet
    rw [cut, frame, packet] at longer
    simp_all

def HasEntry (c : Consumer) (fd : Int) : Prop :=
  ∃ h uc, uc ∈ (getQueue c.queue).hash h ∧ uc.pack.id = fd

theorem hasEntry_iff (c : Consumer) (fd : Int) (rest : List UInt8)
    (hashed : Hashed (getQueue c.queue)) (holds : Holds fd rest (entries (getQueue c.queue) fd)) :
    HasEntry c fd ↔ rest ≠ [] := by
  have found : HasEntry c fd ↔ entries (getQueue c.queue) fd ≠ [] := by
    constructor
    · rintro ⟨h, uc, inside, same⟩ nothing
      obtain rfl := hashed h uc inside
      have member : uc ∈ entries (getQueue c.queue) fd := by
        rw [← same]
        simpa [entries] using inside
      rw [nothing] at member
      contradiction
    · intro nonempty
      obtain ⟨uc, member⟩ := List.exists_mem_of_ne_nil _ nonempty
      simp only [entries, List.mem_filter, decide_eq_true_eq] at member
      exact ⟨_, uc, member.1, member.2⟩
  rw [found]
  cases present : entries (getQueue c.queue) fd with
  | nil =>
    rw [present] at holds
    have gone : rest = [] := holds
    simp [gone]
  | cons uc more =>
    rw [present] at holds
    have here : rest ≠ [] := by
      rintro rfl
      cases more <;> exact holds.elim
    simp [here]

theorem packets_reassembled (events : List (Int × List UInt8))
    (nonempty : ∀ event ∈ events, event.2 ≠ []) (fd : Int)
    (packets : List (List UInt8)) (sizes : ∀ payload ∈ packets, payload.length < 65536)
    (rest more payload : List UInt8) (size : payload.length < 65536)
    (cut : rest ++ more = frame payload) (missing : more ≠ [])
    (sent : stream events fd = packets.flatMap frame ++ rest) :
    (Consumer.new.chunks events).payloads fd = packets ∧
      (HasEntry (Consumer.new.chunks events) fd ↔ rest ≠ []) := by
  have received := chunks_received events .new _ nonempty new_received
  have whole : Framing.split format ([] ++ stream events fd) = (packets, rest) := by
    rw [List.nil_append, sent, split_frames packets rest sizes,
      split_cut rest more payload size cut missing]
    simp
  have payloads := received.payloads fd
  have entry := received.entry fd
  rw [whole] at payloads entry
  exact ⟨payloads, hasEntry_iff _ fd rest received.hashed entry⟩

def crossed : List (Int × List UInt8) :=
  [(1, [0]), (4096, [0]), (1, [2, 10]), (4096, [1, 7]), (1, [11, 0])]

theorem crossed_streams_reassembled :
    hashFd 1 = hashFd 4096 ∧ (Consumer.new.chunks crossed).payloads 1 = [[10, 11]] ∧
      HasEntry (Consumer.new.chunks crossed) 1 := by
  have whole := packets_reassembled crossed (by decide) 1 [[10, 11]] (by decide) [0] [0] []
    (by decide) rfl (by decide) rfl
  exact ⟨by decide, whole.1, whole.2.mpr (by decide)⟩

end Pskynet.Netpack
