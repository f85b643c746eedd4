import Pskynet.Seri.Pointer

set_option autoImplicit false

namespace Pskynet.Seri

open Lua Slots

def ReadState.Forward (st : ReadState) : Prop := st.trail.Pairwise fun later earlier => earlier ≤ later

-- The read block stands in `buffer` before the bytes `rb`.
structure At (buffer : List UInt8) (st : ReadState) (rb : ReadBlock) : Prop where
  within : 0 ≤ st.ptr
  rest : buffer.drop st.ptr.toNat = rb
  left : st.len = rb.length
  whole : st.ptr + st.len = buffer.length
  passed : ∀ place ∈ st.trail, place ≤ st.ptr
  forward : st.Forward

def blockTooBig : Fault := .error "memory allocation error: block too big"

def InvalidStream (stop : Stop) : Prop :=
  ∃ (len : Int) (line : Nat), stop = .fault (.error ("Invalid serialize stream " ++ toString len ++
    " (line:" ++ toString line ++ ")"))

def Matches {α : Type} (buffer : List UInt8) (out : Except Stop α × ReadState) :
    Except Fault (α × ReadBlock) → Prop
  | .ok (value, rb) => out.1 = .ok value ∧ At buffer out.2 rb
  | .error fault =>
      (out.1 = .error (.fault fault) ∧ out.2.Forward) ∨
        (fault = blockTooBig ∧ ∃ stop, out.1 = .error stop ∧ ¬InvalidStream stop)

-- From the bytes `rb` on, the reader does what `result` says of the list.
structure Follows {α : Type} (buffer : List UInt8) (act : Reader α) (rb : ReadBlock)
    (result : Except Fault (α × ReadBlock)) : Prop where
  runs : ∀ st, At buffer st rb → Matches buffer (act.run.run st) result
  shorter : ∀ value rb', result = .ok (value, rb') → rb'.length ≤ rb.length

variable {α β : Type} {buffer : List UInt8} {rb : ReadBlock}

theorem Follows.pure (value : α) : Follows buffer (Pure.pure value) rb (.ok (value, rb)) where
  runs := fun _ here => ⟨rfl, here⟩
  shorter := by
    intro _ rb' same
    rw [(Prod.mk.inj (Except.ok.inj same)).2]

theorem Follows.bind {act : Reader α} {result : Except Fault (α × ReadBlock)}
    {next : α → Reader β} {after : α × ReadBlock → Except Fault (β × ReadBlock)}
    (first : Follows buffer act rb result)
    (second : ∀ value rb', result = .ok (value, rb') →
      Follows buffer (next value) rb' (after (value, rb'))) :
    Follows buffer (act >>= next) rb (result >>= after) := by
  constructor
  · intro st here
    have one := first.runs st here
    rw [ExceptT.run_bind, StateT.run_bind]
    rcases ran : act.run.run st with ⟨out, st'⟩
    rw [ran] at one
    cases result with
    | ok value =>
      obtain ⟨value, rb'⟩ := value
      obtain ⟨rfl, here'⟩ := one
      exact (second value rb' rfl).runs st' here'
    | error fault =>
      rcases one with ⟨rfl, forward⟩ | ⟨big, stop, rfl, other⟩
      · exact .inl ⟨rfl, forward⟩
      · exact .inr ⟨big, stop, rfl, other⟩
  · intro value rb' done
    cases result with
    | ok middle =>
      obtain ⟨value', rb''⟩ := middle
      exact ((second value' rb'' rfl).shorter value rb' done).trans (first.shorter value' rb'' rfl)
    | error fault => cases done

theorem Follows.ite {act other : Reader α} {result others : Except Fault (α × ReadBlock)}
    {c : Prop} [Decidable c] (yes : c → Follows buffer act rb result)
    (no : ¬c → Follows buffer other rb others) :
    Follows buffer (if c then act else other) rb (if c then result else others) := by
  split_ifs with holds
  · exact yes holds
  · exact no holds

theorem Follows.error {act : Reader α} {fault : Fault}
    (runs : ∀ st, At buffer st rb → Matches buffer (act.run.run st) (.error fault)) :
    Follows buffer act rb (.error fault) where
  runs := runs
  shorter := fun _ _ done => by cases done

theorem Follows.stopped {act : Reader α} {fault : Fault} (first : Follows buffer act rb (.error fault))
    (next : α → Reader β) : Follows buffer (act >>= next) rb (.error fault) := by
  show Follows _ _ _ ((.error fault : Except Fault (α × ReadBlock)) >>= fun _ => .error fault)
  exact first.bind fun _ _ done => by cases done

theorem Follows.throw (fault : Fault) :
    Follows buffer (throw (.fault fault) : Reader α) rb (.error fault) :=
  .error fun _ here => .inl ⟨rfl, here.forward⟩

theorem Follows.invalidStream (line : Nat) :
    Follows buffer (Pointer.invalidStream (α := α) line) rb (Seri.invalidStream rb line) := by
  refine .error fun st here => .inl ⟨?_, here.forward⟩
  have text : toString st.len = toString rb.length := by
    rw [here.left]
    rfl
  show Except.error _ = Except.error _
  rw [text]

theorem rbRead_eq (sz : Int) (st : ReadState) :
    (Pointer.rbRead sz).run.run st =
      if st.len < sz then (.ok none, st)
      else if 2 ^ 31 ≤ st.len - sz then (.error (.fault .overflow), st)
      else
        (.ok (some st.ptr),
          { ptr := st.ptr + sz, len := st.len - sz, trail := (st.ptr + sz) :: st.trail }) := by
  unfold Pointer.rbRead
  rw [ExceptT.run_bind, StateT.run_bind]
  show (ExceptT.run (if st.len < sz then _ else if 2 ^ 31 ≤ st.len - sz then _ else _) :
    StateM ReadState (Except Stop (Option Int))).run st = _
  split_ifs <;> rfl

theorem rbRead_run {st : ReadState} (here : At buffer st rb) (small : buffer.length < 2 ^ 31)
    (sz : Nat) (fits : sz ≤ rb.length) :
    (Pointer.rbRead sz).run.run st =
      (.ok (some st.ptr),
        { ptr := st.ptr + sz, len := st.len - sz, trail := (st.ptr + sz) :: st.trail }) := by
  have left := here.left
  have whole := here.whole
  have within := here.within
  rw [rbRead_eq, if_neg (by omega), if_neg (by omega)]

theorem rbRead_none {st : ReadState} (here : At buffer st rb) (sz : Nat)
    (short : rb.length < sz) : (Pointer.rbRead sz).run.run st = (.ok none, st) := by
  have left := here.left
  rw [rbRead_eq, if_pos (by omega)]

theorem At.move {st : ReadState} (here : At buffer st rb) (sz : Nat) (fits : sz ≤ rb.length) :
    At buffer { ptr := st.ptr + sz, len := st.len - sz, trail := (st.ptr + sz) :: st.trail }
      (rb.drop sz) := by
  have within := here.within
  have passed : ∀ place ∈ st.trail, place ≤ st.ptr + sz := by
    intro place inside
    have := here.passed place inside
    omega
  refine ⟨?_, ?_, ?_, ?_, ?_, ?_⟩
  · show 0 ≤ st.ptr + sz
    omega
  · have place : (st.ptr + (sz : Int)).toNat = st.ptr.toNat + sz := by omega
    show buffer.drop (st.ptr + (sz : Int)).toNat = _
    rw [place, ← List.drop_drop, here.rest]
  · show st.len - sz = ((rb.drop sz).length : Int)
    rw [here.left, List.length_drop]
    omega
  · show st.ptr + sz + (st.len - sz) = _
    have := here.whole
    omega
  · intro place inside
    rcases List.mem_cons.mp inside with rfl | inside
    · exact le_refl _
    · exact passed place inside
  · exact List.pairwise_cons.mpr ⟨passed, here.forward⟩

theorem load_run {st : ReadState} (here : At buffer st rb) (sz : Nat) (fits : sz ≤ rb.length) :
    Pointer.load buffer st.ptr sz = pure (rb.take sz) := by
  have within := here.within
  have left := here.left
  have whole := here.whole
  unfold Pointer.load
  rw [if_pos ⟨within, by omega⟩, here.rest]

section

variable (small : buffer.length < 2 ^ 31)
include small

theorem readBytes_follows (sz line : Nat) :
    Follows buffer (Pointer.readBytes buffer sz line) rb (Seri.rbRead rb sz line) := by
  unfold Pointer.readBytes Seri.rbRead
  by_cases short : rb.length < sz
  · rw [if_pos short]
    refine .error fun st here => ?_
    rw [ExceptT.run_bind, StateT.run_bind, rbRead_none here sz short]
    exact (Follows.invalidStream line).runs st here
  · rw [if_neg short]
    constructor
    · intro st here
      rw [ExceptT.run_bind, StateT.run_bind, rbRead_run here small sz (by omega)]
      show Matches buffer ((Pointer.load buffer st.ptr sz).run.run _) _
      rw [load_run here sz (by omega)]
      exact ⟨rfl, here.move sz (by omega)⟩
    · intro value rb' done
      rw [← (Prod.mk.inj (Except.ok.inj done)).2, List.length_drop]
      omega

theorem getInteger_follows (cookie : Nat) :
    Follows buffer (Pointer.getInteger buffer cookie) rb (Seri.getInteger rb cookie) := by
  unfold Pointer.getInteger Seri.getInteger
  refine .ite (fun _ => .pure _) fun _ => ?_
  refine .ite (fun _ => (readBytes_follows small 1 338).bind fun _ _ _ => .pure _) fun _ => ?_
  refine .ite (fun _ => (readBytes_follows small 2 346).bind fun _ _ _ => .pure _) fun _ => ?_
  refine .ite (fun _ => (readBytes_follows small 4 354).bind fun _ _ _ => .pure _) fun _ => ?_
  refine .ite (fun _ => (readBytes_follows small 8 362).bind fun _ _ _ => .pure _) fun _ => ?_
  exact .invalidStream 367

theorem getReal_follows : Follows buffer (Pointer.getReal buffer) rb (Seri.getReal rb) :=
  (readBytes_follows small 8 377).bind fun _ _ _ => .pure _

theorem getPointer_follows : Follows buffer (Pointer.getPointer buffer) rb (Seri.getPointer rb) :=
  (readBytes_follows small 8 387).bind fun _ _ _ => .pure _

theorem unpackSize_follows (arraySize : Nat) :
    Follows buffer (Pointer.unpackSize buffer arraySize) rb (Seri.unpackSize rb arraySize) := by
  unfold Pointer.unpackSize Seri.unpackSize
  refine .ite (fun _ => ?_) fun _ => .pure _
  refine (readBytes_follows small 1 410).bind fun t rb' _ => ?_
  refine .ite (fun _ => .invalidStream 415) fun _ => ?_
  exact (getInteger_follows small _).bind fun _ _ _ => .pure _

omit small in
theorem not_invalidStream_tooBig : ¬InvalidStream (.fault blockTooBig) := by
  rintro ⟨len, line, same⟩
  have heads := congrArg (fun text : String => text.toList.head?) (Fault.error.inj (Stop.fault.inj same))
  simp [String.toList_append] at heads

omit small in
theorem push_follows (room : Nat) (value : LuaValue) :
    Follows buffer (Pointer.push room value) rb (Seri.push room value rb) := by
  unfold Pointer.push Seri.push
  by_cases full : room = 0
  · rw [if_pos full, within_of_lt (by omega)]
    exact .throw .stack
  · rw [if_neg full, within_of_le (by omega)]
    exact .pure value

theorem pushlstring_negative (room : Nat) (len : Int) (negative : len < 0) (least : -2 ^ 31 ≤ len)
    (p : Int) (st : ReadState) :
    ∃ stop, ((Pointer.pushlstring buffer room p len).run.run st).1 = .error stop ∧
      ¬InvalidStream stop := by
  unfold Pointer.pushlstring
  simp only
  by_cases big : maxString < ((len % 2 ^ 64).toNat + 1) % 2 ^ 64
  · rw [if_pos big]
    exact ⟨_, rfl, not_invalidStream_tooBig⟩
  · rw [if_neg big]
    have outside : ¬(0 ≤ p ∧ p + (len % 2 ^ 64).toNat ≤ buffer.length) := by
      unfold maxString at big
      omega
    unfold Pointer.load
    rw [if_neg outside]
    refine ⟨.outside, rfl, ?_⟩
    rintro ⟨len, line, same⟩
    cases same

theorem getBuffer_follows (room : Nat) (len : Int) (least : -2 ^ 31 ≤ len) :
    Follows buffer (Pointer.getBuffer buffer room len) rb (Seri.getBuffer room rb len) := by
  unfold Pointer.getBuffer Seri.getBuffer
  by_cases negative : len < 0
  · rw [if_pos negative]
    refine .error fun st here => .inr ⟨rfl, ?_⟩
    have left := here.left
    rw [ExceptT.run_bind, StateT.run_bind, rbRead_eq, if_neg (by omega)]
    by_cases wide : 2 ^ 31 ≤ st.len - len
    · rw [if_pos wide]
      refine ⟨_, rfl, ?_⟩
      rintro ⟨len, line, same⟩
      cases same
    · rw [if_neg wide]
      exact pushlstring_negative small room len negative least _ _
  · rw [if_neg negative]
    obtain ⟨size, rfl⟩ := Int.eq_ofNat_of_zero_le (by omega : 0 ≤ len)
    show Follows _ _ _ (Seri.rbRead rb size 397 >>= _)
    unfold Seri.rbRead
    by_cases short : rb.length < size
    · rw [if_pos short]
      refine .error fun st here => ?_
      rw [ExceptT.run_bind, StateT.run_bind, rbRead_none here size short]
      exact (Follows.invalidStream 397).runs st here
    · rw [if_neg short]
      have pushed := @push_follows buffer (rb.drop size) room (.scalar (.string (rb.take size)))
      constructor
      · intro st here
        rw [ExceptT.run_bind, StateT.run_bind, rbRead_run here small size (by omega)]
        have whole := here.whole
        have left := here.left
        have within := here.within
        have same : ((size : Int) % 2 ^ 64).toNat = size := by omega
        show Matches buffer ((Pointer.pushlstring buffer room st.ptr size).run.run _) _
        unfold Pointer.pushlstring
        simp only [same]
        rw [if_neg (by unfold maxString; omega), load_run here size (by omega)]
        exact pushed.runs _ (here.move size (by omega))
      · intro value rb' done
        have less := pushed.shorter value rb' done
        rw [List.length_drop] at less
        omega

section Table

-- `unpack_one` of the elements, from at most `limit` bytes.
variable {unpack : Nat → Reader LuaValue}
  {elements : Nat → ReadBlock → Except Fault (LuaValue × ReadBlock)} {limit : Nat}
  (follows : ∀ (room : Nat) (rb : ReadBlock), rb.length ≤ limit →
    Follows buffer (unpack room) rb (elements room rb))
include follows

omit small in
theorem unpackArray_follows (room : Nat) (indices : List Nat) (entries : Entries) (rb : ReadBlock)
    (bound : rb.length ≤ limit) :
    Follows buffer (Pointer.unpackArray (unpack room) indices entries) rb
      (Seri.unpackArray (elements room) indices entries rb) := by
  induction indices generalizing entries rb with
  | nil => exact .pure _
  | cons i rest ih =>
    refine (follows room rb bound).bind fun value rb' done => ?_
    exact ih _ rb' (((follows room rb bound).shorter value rb' done).trans bound)

omit small in
theorem unpackHash_follows
    (stops : ∀ room, elements room [] = Seri.invalidStream [] 497)
    (reads : ∀ room rb value rb', rb.length ≤ limit → elements room rb = .ok (value, rb') →
      rb'.length < rb.length)
    (room turns : Nat) (entries : Entries) (rb : ReadBlock) (enough : rb.length ≤ turns)
    (bound : rb.length ≤ limit) :
    Follows buffer (Pointer.unpackHash (unpack room) (unpack (room - 1)) (turns + 1) entries) rb
      (Seri.unpackHash (elements room) (elements (room - 1)) turns entries rb) := by
  induction turns generalizing entries rb with
  | zero =>
    obtain rfl := List.eq_nil_of_length_eq_zero (Nat.le_zero.mp enough)
    have first := follows room [] bound
    rw [stops] at first
    exact first.stopped _
  | succ turns ih =>
    refine (follows room rb bound).bind fun key rb' keyed => ?_
    have less := reads room rb key rb' bound keyed
    refine .ite (fun _ => .pure _) fun _ => ?_
    refine (follows (room - 1) rb' (by omega)).bind fun value rb'' valued => ?_
    have lesser := reads (room - 1) rb' value rb'' (by omega) valued
    dsimp only
    cases rawset entries key value with
    | error text => exact .throw (.error text)
    | ok stored => exact ih stored rb'' (by omega) (by omega)

theorem unpackTable_follows (border : Entries → Nat)
    (stops : ∀ room, elements room [] = Seri.invalidStream [] 497)
    (reads : ∀ room rb value rb', rb.length ≤ limit → elements room rb = .ok (value, rb') →
      rb'.length < rb.length)
    (turns room : Nat) (enough : limit ≤ turns) (rb : ReadBlock) (bound : rb.length ≤ limit)
    (arraySize : Nat) :
    Follows buffer (Pointer.unpackTable buffer border unpack (turns + 1) room arraySize) rb
      (Seri.unpackTable border elements turns room rb arraySize) := by
  have sized := @unpackSize_follows buffer rb small arraySize
  refine sized.bind fun size rb' sizes => ?_
  have less := sized.shorter size rb' sizes
  dsimp only
  by_cases full : room = 0
  · rw [if_pos full, claim, within_of_lt (by omega)]
    exact .throw .stack
  · rw [if_neg full, claim, within_of_le (by omega)]
    have filled := unpackArray_follows follows (room - 1) (List.range' 1 size.toNat) [] rb'
      (by omega)
    refine filled.bind fun entries rb'' fills => ?_
    have lesser := filled.shorter entries rb'' fills
    refine (unpackHash_follows follows stops reads (room - 1) turns entries rb'' (by omega)
      (by omega)).bind ?_
    exact fun _ _ _ => .pure _

theorem pushValue_follows (border : Entries → Nat)
    (stops : ∀ room, elements room [] = Seri.invalidStream [] 497)
    (reads : ∀ room rb value rb', rb.length ≤ limit → elements room rb = .ok (value, rb') →
      rb'.length < rb.length)
    (turns room : Nat) (enough : limit ≤ turns) (rb : ReadBlock) (bound : rb.length ≤ limit)
    (type cookie : Nat) :
    Follows buffer (Pointer.pushValue buffer border unpack (turns + 1) room type cookie) rb
      (Seri.pushValue border elements turns room rb type cookie) := by
  unfold Pointer.pushValue Seri.pushValue
  refine .ite (fun _ => push_follows room _) fun _ => ?_
  refine .ite (fun _ => push_follows room _) fun _ => ?_
  refine .ite (fun _ => ?_) fun _ => ?_
  · refine .ite (fun _ => ?_) fun _ => ?_
    · exact (getReal_follows small).bind fun _ _ _ => push_follows room _
    · exact (getInteger_follows small cookie).bind fun _ _ _ => push_follows room _
  refine .ite (fun _ => ?_) fun _ => ?_
  · exact (getPointer_follows small).bind fun _ _ _ => push_follows room _
  refine .ite (fun _ => getBuffer_follows small room cookie (by omega)) fun _ => ?_
  refine .ite (fun _ => ?_) fun _ => ?_
  · refine .ite (fun _ => ?_) fun _ => ?_
    · exact (readBytes_follows small 2 462).bind fun n _ _ =>
        getBuffer_follows small room _ (by omega)
    · refine .ite (fun _ => .invalidStream 469) fun _ => ?_
      refine (readBytes_follows small 4 473).bind fun n _ _ => getBuffer_follows small room _ ?_
      exact Int32.le_toInt _
  · refine .ite (fun _ => ?_) fun _ => .invalidStream 486
    exact unpackTable_follows small follows border stops reads turns room enough rb bound cookie

end Table

omit small in
theorem unpackOne_empty (border : Entries → Nat) (turns room : Nat) :
    Seri.unpackOne border turns room [] = Seri.invalidStream [] 497 := by
  cases turns <;> rfl

theorem unpackOne_follows (border : Entries → Nat) (turns room : Nat) (rb : ReadBlock)
    (enough : rb.length ≤ turns) :
    Follows buffer (Pointer.unpackOne buffer border (turns + 1) room) rb
        (Seri.unpackOne border turns room rb) ∧
      ∀ value rb', Seri.unpackOne border turns room rb = .ok (value, rb') →
        rb'.length < rb.length := by
  have read := @readBytes_follows buffer rb small 1 497
  induction turns generalizing room rb with
  | zero =>
    obtain rfl := List.eq_nil_of_length_eq_zero (Nat.le_zero.mp enough)
    refine ⟨?_, fun _ _ done => by cases done⟩
    exact read.stopped _
  | succ turns ih =>
    have push (rb' : ReadBlock) (bound : rb'.length ≤ turns) (type cookie : Nat) :=
      pushValue_follows small
        (fun room rb bound => (ih room rb bound (readBytes_follows small 1 497)).1) border
        (unpackOne_empty border turns)
        (fun room rb value rb' bound =>
          (ih room rb bound (readBytes_follows small 1 497)).2 value rb')
        turns room (le_refl _) rb' bound type cookie
    have taken (t : List UInt8) (rb' : ReadBlock) (done : Seri.rbRead rb 1 497 = .ok (t, rb')) :
        rb'.length < rb.length := by
      unfold Seri.rbRead at done
      by_cases short : rb.length < 1
      · rw [if_pos short] at done
        cases done
      · rw [if_neg short] at done
        rw [← (Prod.mk.inj (Except.ok.inj done)).2, List.length_drop]
        omega
    constructor
    · refine read.bind fun t rb' done => ?_
      have less := taken t rb' done
      exact push rb' (by omega) _ _
    · intro value rb' done
      unfold Seri.unpackOne at done
      cases first : Seri.rbRead rb 1 497 with
      | error fault =>
        rw [first] at done
        cases done
      | ok middle =>
        obtain ⟨t, rb''⟩ := middle
        rw [first] at done
        have less := taken t rb'' first
        exact Nat.lt_of_le_of_lt ((push rb'' (by omega) _ _).shorter value rb' done) less

def MatchesAll (out : Except Stop (List LuaValue) × ReadState) :
    Except Fault (List LuaValue) → Prop
  | .ok values => out.1 = .ok values ∧ out.2.Forward
  | .error fault =>
      (out.1 = .error (.fault fault) ∧ out.2.Forward) ∨
        (fault = blockTooBig ∧ ∃ stop, out.1 = .error stop ∧ ¬InvalidStream stop)

omit small in
theorem MatchesAll.bind {act : Reader α} {st : ReadState} {result : Except Fault (α × ReadBlock)}
    {next : α → Reader (List LuaValue)} {after : α × ReadBlock → Except Fault (List LuaValue)}
    (first : Matches buffer (act.run.run st) result)
    (second : ∀ value rb', result = .ok (value, rb') → ∀ st', At buffer st' rb' →
      MatchesAll ((next value).run.run st') (after (value, rb'))) :
    MatchesAll ((act >>= next).run.run st) (result >>= after) := by
  rw [ExceptT.run_bind, StateT.run_bind]
  rcases ran : act.run.run st with ⟨out, st'⟩
  rw [ran] at first
  cases result with
  | ok middle =>
    obtain ⟨value, rb'⟩ := middle
    obtain ⟨rfl, here'⟩ := first
    exact second value rb' rfl st' here'
  | error fault =>
    rcases first with ⟨rfl, forward⟩ | ⟨big, stop, rfl, other⟩
    · exact .inl ⟨rfl, forward⟩
    · exact .inr ⟨big, stop, rfl, other⟩

omit small in
theorem MatchesAll.cons {act : Reader (List LuaValue)} {st : ReadState}
    {result : Except Fault (List LuaValue)} (value : LuaValue)
    (rest : MatchesAll (act.run.run st) result) :
    MatchesAll ((act >>= fun values => Pure.pure (value :: values)).run.run st)
      (result >>= fun values => Pure.pure (value :: values)) := by
  rw [ExceptT.run_bind, StateT.run_bind]
  rcases ran : act.run.run st with ⟨out, st'⟩
  rw [ran] at rest
  cases result with
  | ok values =>
    obtain ⟨rfl, forward⟩ := rest
    exact ⟨rfl, forward⟩
  | error fault =>
    rcases rest with ⟨rfl, forward⟩ | ⟨big, stop, rfl, other⟩
    · exact .inl ⟨rfl, forward⟩
    · exact .inr ⟨big, stop, rfl, other⟩

theorem unpackAll_follows (border : Entries → Nat) (source : Source) (turns i : Nat)
    (rb : ReadBlock) (enough : rb.length ≤ turns) (st : ReadState) (here : At buffer st rb) :
    MatchesAll ((Pointer.unpackAll buffer border source (turns + 1) i).run.run st)
      (Seri.unpackAll border source turns i rb) := by
  induction turns generalizing i rb st with
  | zero =>
    obtain rfl := List.eq_nil_of_length_eq_zero (Nat.le_zero.mp enough)
    unfold Pointer.unpackAll
    rw [ExceptT.run_bind, StateT.run_bind, show (1 : Int) = (1 : Nat) from rfl,
      rbRead_none here 1 (by simp)]
    exact ⟨rfl, here.forward⟩
  | succ turns ih =>
    unfold Pointer.unpackAll
    rw [ExceptT.run_bind, StateT.run_bind, show (1 : Int) = (1 : Nat) from rfl]
    cases rb with
    | nil =>
      rw [rbRead_none here 1 (by simp)]
      exact ⟨rfl, here.forward⟩
    | cons t rest =>
      rw [rbRead_run here small 1 (by simp)]
      have bound : rest.length ≤ turns := by simpa using enough
      have moved := here.move 1 (by simp)
      show MatchesAll ((Pointer.load buffer st.ptr 1 >>= _).run.run _) _
      rw [load_run here 1 (by simp), pure_bind]
      have unpack (room : Nat) (rb : ReadBlock) (bound : rb.length ≤ turns) :=
        unpackOne_follows small border turns room rb bound
      have push := pushValue_follows small (fun room rb bound => (unpack room rb bound).1) border
        (unpackOne_empty border turns)
        (fun room rb value rb' bound => (unpack room rb bound).2 value rb') turns
        (granted source i - i) (le_refl _) rest bound (t.toNat % 8) (t.toNat / 8)
      refine MatchesAll.bind (push.runs _ moved) fun value rb' done st' here' => ?_
      have less := push.shorter value rb' done
      exact (ih (i + 1) rb' (by omega) st' here').cons value

end

end Pskynet.Seri
