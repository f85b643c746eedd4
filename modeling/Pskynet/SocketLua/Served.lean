import Pskynet.SocketLua.Sock

set_option autoImplicit false

namespace Pskynet.SocketLua

-- What `read_required` is while a call waits
def Call.need : Call → Required
  | .some_ | .block => .size 0
  | .size n => .size n
  | .all => .all
  | .line sep => .line sep
  | .close => .nothing

def Ready (buffer : List UInt8) : Call → Prop
  | .some_ => buffer ≠ []
  | .size n => 0 < n ∧ n ≤ buffer.length
  | .all | .block | .close => False
  | .line sep => sep.bytes <:+: buffer

-- What has come is enough to wake the call.
def Wakes (buffer : List UInt8) : Call → Prop
  | .some_ => buffer ≠ []
  | .size n => n ≤ buffer.length
  | .all | .close => False
  | .block => True
  | .line sep => sep.bytes <:+: buffer

def Result.consumed : Result → List UInt8
  | .data bytes | .ends bytes => bytes
  | .line bytes sep => bytes ++ sep.bytes
  | .missing | .unblocked _ | .closed | .raised => []

def consumed (results : List (Call × Result)) : List UInt8 :=
  (results.map fun given => given.2.consumed).flatten

def Fits : Call → Result → Prop
  | .some_, .data bytes => bytes ≠ []
  | .some_, .ends bytes => bytes = []
  | .size n, .data bytes => bytes.length = n
  | .size n, .ends bytes => bytes.length < n ∨ n = 0
  | .all, .data _ => True
  | .all, .ends bytes => bytes = []
  | .line sep, .line bytes other =>
      other = sep ∧ Search.FirstAt sep.bytes (bytes ++ sep.bytes) bytes.length
  | .line sep, .ends bytes => ¬sep.bytes <:+: bytes
  | .block, .unblocked _ => True
  | .close, .closed => True
  | _, .raised => True
  | _, _ => False

def Woken (s : Sock) (call : Call) : Prop :=
  (s.connected = true ∧ s.required = .nothing ∧ Wakes s.buffer call) ∨
    (s.connected = false ∧ ¬Ready s.buffer call)

-- Whether another coroutine waits in `socket.close` for the one that reads
def Behind (s : Sock) : Prop :=
  (s.closing = none ∧ s.closer = .idle) ∨ (s.closing = some .closer ∧ s.closer = .behind)

-- Whether the one that reads waits in `socket.close` for another coroutine
def Second (s : Sock) : Prop :=
  (s.waiting = none ∧ s.closing = none) ∨ (s.waiting = some .close ∧ s.closing = some .reader)

-- Where the two coroutines are; from `gone` on the socket is out of `socket_pool`.
inductive Phase (s : Sock) : Prop where
  | quiet (pool : s.pool = true) (woken : s.woken = none) (waiting : s.waiting = none)
      (co : s.co = none) (closing : s.closing = none) (closer : s.closer = .idle)
      (required : s.connected = true → s.required = .nothing)
  | waits (call : Call) (pool : s.pool = true) (woken : s.woken = none)
      (waiting : s.waiting = some call) (co : s.co = some .reader) (behind : Behind s)
      (connected : s.connected = true) (required : s.required = call.need)
      (unready : ¬Ready s.buffer call)
  | woken (call : Call) (pool : s.pool = true) (woken : s.woken = some .reader)
      (waiting : s.waiting = some call) (co : s.co = none) (behind : Behind s)
      (called : Woken s call)
  | turn (pool : s.pool = true) (woken : s.woken = some .closer) (waiting : s.waiting = none)
      (co : s.co = none) (closing : s.closing = some .closer) (closer : s.closer = .behind)
      (required : s.connected = true → s.required = .nothing)
  | left (call : Call) (pool : s.pool = true) (woken : s.woken = some .closer)
      (waiting : s.waiting = some call) (co : s.co = some .reader)
      (closing : s.closing = some .closer) (closer : s.closer = .behind)
  | suspended (pool : s.pool = true) (woken : s.woken = none) (co : s.co = some .closer)
      (closer : s.closer = .suspended) (second : Second s) (connected : s.connected = true)
  | closes (pool : s.pool = true) (woken : s.woken = some .closer) (co : s.co = none)
      (closer : s.closer = .suspended) (second : Second s)
  | gone (pool : s.pool = false) (woken : s.woken = none) (waiting : s.waiting = none)
      (closer : s.closer = .idle ∨ s.closer = .done)
  | after (pool : s.pool = false) (woken : s.woken = some .closer) (waiting : s.waiting = none)
      (closing : s.closing = some .closer) (closer : s.closer = .behind)
      (connected : s.connected = false)
  | told (pool : s.pool = false) (woken : s.woken = some .reader)
      (waiting : s.waiting = some .close) (co : s.co = none) (closing : s.closing = some .reader)
      (closer : s.closer = .done)
  | stranded (call : Call) (pool : s.pool = false) (woken : s.woken = none)
      (waiting : s.waiting = some call) (co : s.co = some .reader) (closer : s.closer = .done)

def Turn (s : Sock) : Prop :=
  s.waiting = none ∧ (s.woken = none ∨ s.woken = some .closer ∧ s.closer = .behind)

structure Streamed (s : Sock) : Prop where
  stream : s.overflowed = false →
    ∃ rest, s.received = consumed s.results ++ rest ∧ (s.pool = true → rest = s.buffer)
  fits : ∀ given ∈ s.results, Fits given.1 given.2
  raised : ∀ given ∈ s.results, given.2 = .raised → s.closer = .suspended ∨ s.pool = false

variable {s next : Sock}

theorem consumed_append (results : List (Call × Result)) (call : Call) (result : Result) :
    consumed (results ++ [(call, result)]) = consumed results ++ result.consumed := by
  simp [consumed]

def Gives (s : Sock) (call : Call) (next : Sock) : Prop :=
  ∃ result buffer,
    next = { s with buffer := buffer, results := s.results ++ [(call, result)] } ∧
    result.consumed ++ buffer = s.buffer ∧ Fits call result ∧
    (result = .raised → s.pool = false) ∧ (s.pool = false → result.consumed = [])

theorem gives_readall {call : Call} {result : List UInt8 → Result} (pool : s.pool = true)
    (bytes : (result s.buffer).consumed = s.buffer) (fits : Fits call (result s.buffer))
    (unraised : result s.buffer ≠ .raised) : Gives s call (s.readall call result) := by
  refine ⟨result s.buffer, [], rfl, ?_, fits, ?_, ?_⟩
  · rw [List.append_nil, bytes]
  · intro raised
    exact absurd raised unraised
  · simp [pool]

theorem consumed_rest (bytes : List UInt8) : (Result.rest bytes).consumed = bytes := by
  unfold Result.rest
  split
  · next empty => exact empty.symm
  · rfl

theorem fits_rest {bytes : List UInt8} : Fits .some_ (.rest bytes) := by
  unfold Result.rest
  split
  · rfl
  · next held => exact held

theorem fits_rest_all {bytes : List UInt8} : Fits .all (.rest bytes) := by
  unfold Result.rest
  split
  · rfl
  · trivial

theorem gives_rest {call : Call} (pool : s.pool = true) (fits : Fits call (.rest s.buffer)) :
    Gives s call (s.readall call .rest) := by
  refine gives_readall pool (consumed_rest s.buffer) fits ?_
  unfold Result.rest
  split <;> simp

theorem gives_pop {n : Nat} (otherwise : Sock) (pool : s.pool = true)
    (ready : Ready s.buffer (.size n)) : Gives s (.size n) (s.pop n otherwise) := by
  have size : 0 < n ∧ n ≤ s.buffer.length := ready
  refine ⟨.data (s.buffer.take n), s.buffer.drop n, ?_, ?_, ?_, ?_, ?_⟩
  · rw [Sock.pop, if_pos size]
    rfl
  · exact List.take_append_drop n s.buffer
  · exact List.length_take_of_le size.2
  · simp
  · simp [pool]

theorem gives_readline {sep : Separator} (otherwise : Sock) (pool : s.pool = true)
    (ready : Ready s.buffer (.line sep)) : Gives s (.line sep) (s.readline sep otherwise) := by
  obtain ⟨i, first⟩ := Search.exists_firstAt (ready : sep.bytes <:+: s.buffer)
  have inside := first.length_le sep.filled
  have length : (s.buffer.take i).length = i := List.length_take_of_le (by omega)
  have line : s.buffer.take i ++ sep.bytes = s.buffer.take (i + sep.bytes.length) := by
    rw [List.take_add, List.append_cancel_left_eq]
    exact List.prefix_iff_eq_take.mp first.1
  refine ⟨.line (s.buffer.take i) sep, s.buffer.drop (i + sep.bytes.length), ?_, ?_, ?_, ?_, ?_⟩
  · rw [Sock.readline, (Search.find_some_iff sep.filled _ _).mpr first]
    rfl
  · rw [Result.consumed, line, List.take_append_drop]
  · refine ⟨rfl, ?_⟩
    rw [length, line]
    rw [← List.take_append_drop (i + sep.bytes.length) s.buffer] at first
    exact first.front (List.length_take_of_le inside).ge
  · simp
  · simp [pool]

theorem gives_empty {call : Call} (result : Result) (bytes : result.consumed = [])
    (fits : Fits call result) (raised : result = .raised → s.pool = false) :
    Gives s call (s.give call result) :=
  ⟨result, s.buffer, rfl, by rw [bytes, List.nil_append], fits, raised, fun _ => bytes⟩

theorem pop_otherwise {n : Nat} {otherwise : Sock} (unready : ¬Ready s.buffer (.size n)) :
    s.pop n otherwise = otherwise := if_neg unready

theorem readline_otherwise {sep : Separator} {otherwise : Sock}
    (unready : ¬Ready s.buffer (.line sep)) : s.readline sep otherwise = otherwise := by
  rw [Sock.readline, (Search.find_none_iff sep.filled _).mpr unready]

theorem call_gone (call : Call) (pool : s.pool = false) : Gives s call (s.call call) := by
  cases call with
  | block =>
    simp only [Sock.call, pool, Bool.false_eq_true, false_and, if_false]
    exact gives_empty _ rfl trivial (by simp)
  | close =>
    simp only [Sock.call, pool, Bool.false_eq_true, if_false]
    exact gives_empty _ rfl trivial (by simp)
  | _ =>
    simp only [Sock.call, pool, Bool.false_eq_true, if_false]
    exact gives_empty _ rfl trivial fun _ => pool

theorem call_cases {call : Call} (reads : call ≠ .close) (pool : s.pool = true) :
    (Gives s call (s.call call) ∧ (s.connected = true → Ready s.buffer call)) ∨
      (s.call call = s.await call call.need ∧ s.connected = true ∧ ¬Ready s.buffer call) := by
  cases call with
  | some_ =>
    simp only [Sock.call, pool, if_true]
    by_cases held : s.buffer = []
    · have unready : ¬Ready s.buffer .some_ := fun ready => ready held
      rw [if_neg (not_not_intro held)]
      cases connected : s.connected with
      | false => exact .inl ⟨gives_empty _ rfl rfl (by simp), by simp⟩
      | true => exact .inr ⟨if_pos rfl, rfl, unready⟩
    · left
      rw [if_pos held]
      exact ⟨gives_readall pool rfl held (by simp), fun _ => held⟩
  | size n =>
    simp only [Sock.call, pool, if_true]
    by_cases ready : Ready s.buffer (.size n)
    · exact .inl ⟨gives_pop _ pool ready, fun _ => ready⟩
    · rw [pop_otherwise ready]
      cases connected : s.connected with
      | false =>
        refine .inl ⟨gives_readall pool rfl ?_ (by simp), by simp⟩
        simp only [Ready] at ready
        simp only [Fits]
        omega
      | true => exact .inr ⟨if_pos rfl, rfl, ready⟩
  | all =>
    simp only [Sock.call, pool, if_true]
    have never : ¬Ready s.buffer .all := id
    cases connected : s.connected with
    | false => exact .inl ⟨gives_rest pool fits_rest_all, by simp⟩
    | true => exact .inr ⟨if_pos rfl, rfl, never⟩
  | line sep =>
    simp only [Sock.call, pool, if_true]
    by_cases ready : Ready s.buffer (.line sep)
    · exact .inl ⟨gives_readline _ pool ready, fun _ => ready⟩
    · rw [readline_otherwise ready]
      cases connected : s.connected with
      | false => exact .inl ⟨gives_readall pool rfl ready (by simp), by simp⟩
      | true => exact .inr ⟨if_pos rfl, rfl, ready⟩
  | block =>
    simp only [Sock.call, pool, true_and]
    have never : ¬Ready s.buffer .block := id
    cases connected : s.connected with
    | false => exact .inl ⟨gives_empty _ rfl trivial (by simp), by simp⟩
    | true => exact .inr ⟨if_pos rfl, rfl, never⟩
  | close => exact absurd rfl reads

theorem continue_gives {call : Call} (reads : call ≠ .close) (pool : s.pool = true)
    (woken : Woken s call) : Gives s call (s.continue_ call) := by
  cases call with
  | some_ =>
    exact gives_rest pool fits_rest
  | size n =>
    by_cases ready : Ready s.buffer (.size n)
    · exact gives_pop _ pool ready
    · rw [Sock.continue_, pop_otherwise ready]
      refine gives_readall pool rfl ?_ (by simp)
      simp only [Ready] at ready
      simp only [Fits]
      omega
  | all =>
    obtain ⟨-, -, never⟩ | ⟨connected, -⟩ := woken
    · exact absurd never id
    · simp only [Sock.continue_, connected, Bool.false_eq_true, if_false]
      exact gives_readall pool rfl trivial (by simp)
  | line sep =>
    obtain ⟨connected, -, found⟩ | ⟨connected, unready⟩ := woken
    · simp only [Sock.continue_, connected, if_true]
      exact gives_readline _ pool found
    · simp only [Sock.continue_, connected, Bool.false_eq_true, if_false]
      exact gives_readall pool rfl unready (by simp)
  | block => exact gives_empty _ rfl trivial (by simp)
  | close => exact absurd rfl reads

theorem phase_start (limit : Option Nat) : Phase (.start limit) :=
  .quiet rfl rfl rfl rfl rfl rfl fun _ => rfl

theorem streamed_start (limit : Option Nat) : Streamed (.start limit) := by
  constructor
  · intro _
    exact ⟨[], rfl, fun _ => rfl⟩
  · simp [Sock.start]
  · simp [Sock.start]

theorem Phase.gives {call : Call} (phase : Phase s) (waiting : s.waiting = none)
    (given : Gives s call next) : Phase next := by
  obtain ⟨result, buffer, rfl, -⟩ := given
  cases phase with
  | quiet pool woken waiting co closing closer required =>
    exact .quiet pool woken waiting co closing closer required
  | turn pool woken waiting co closing closer required =>
    exact .turn pool woken waiting co closing closer required
  | suspended pool woken co closer second connected =>
    exact .suspended pool woken co closer second connected
  | closes pool woken co closer second => exact .closes pool woken co closer second
  | gone pool woken waiting closer => exact .gone pool woken waiting closer
  | after pool woken waiting closing closer lost =>
    exact .after pool woken waiting closing closer lost
  | waits _ _ _ called | woken _ _ _ called | left _ _ _ called | told _ _ called
  | stranded _ _ _ called => cases waiting.symm.trans called

theorem Phase.called (phase : Phase s) (pool : s.pool = true) (turn : Turn s) :
    (s.co = none ∧ (s.connected = true → s.required = .nothing) ∧
        (s.woken = none ∧ s.closing = none ∧ s.closer = .idle ∨
          s.woken = some .closer ∧ s.closing = some .closer ∧ s.closer = .behind)) ∨
      (s.woken = none ∧ s.co = some .closer ∧ s.closing = none ∧ s.closer = .suspended ∧
        s.connected = true) := by
  obtain ⟨waiting, turn⟩ := turn
  cases phase with
  | quiet _ woken _ co closing closer required =>
    exact .inl ⟨co, required, .inl ⟨woken, closing, closer⟩⟩
  | turn _ woken _ co closing closer required =>
    exact .inl ⟨co, required, .inr ⟨woken, closing, closer⟩⟩
  | suspended _ woken co closer second connected =>
    obtain ⟨-, closing⟩ | ⟨called, -⟩ := second
    · exact .inr ⟨woken, co, closing, closer, connected⟩
    · cases waiting.symm.trans called
  | closes _ woken _ closer =>
    obtain quiet | ⟨-, behind⟩ := turn
    · cases quiet.symm.trans woken
    · cases behind.symm.trans closer
  | gone gone | after gone | told gone | stranded _ gone => cases pool.symm.trans gone
  | waits _ _ _ called | woken _ _ _ called | left _ _ _ called => cases waiting.symm.trans called

theorem Phase.await {call : Call} (phase : Phase s) (pool : s.pool = true)
    (connected : s.connected = true) (unready : ¬Ready s.buffer call) (turn : Turn s) :
    Phase (s.await call call.need) := by
  obtain ⟨co, required, place⟩ | ⟨woken, co, closing, closer, connected⟩ := phase.called pool turn
  · rw [Sock.await, if_neg (not_not_intro (required connected)), if_neg (not_not_intro co)]
    obtain ⟨woken, closing, closer⟩ | ⟨woken, closing, closer⟩ := place
    · exact .waits call pool woken rfl rfl (.inl ⟨closing, closer⟩) connected rfl unready
    · exact .left call pool woken rfl rfl closing closer
  · have busy : s.co ≠ none := by simp [co]
    unfold Sock.await
    rw [if_pos busy]
    split
    · exact .suspended pool woken co closer (.inl ⟨turn.1, closing⟩) connected
    · exact .suspended pool woken co closer (.inl ⟨turn.1, closing⟩) connected

theorem Phase.callClose (phase : Phase s) (pool : s.pool = true) (turn : Turn s) :
    Phase (s.call .close) := by
  simp only [Sock.call, pool, if_true]
  obtain ⟨co, required, place⟩ | ⟨woken, co, closing, closer, connected⟩ := phase.called pool turn
  · cases connected : s.connected with
    | true =>
      rw [if_pos rfl, Sock.awaitClose, if_pos co]
      obtain ⟨woken, closing, closer⟩ | ⟨woken, closing, closer⟩ := place
      · exact .waits .close pool woken rfl rfl (.inl ⟨closing, closer⟩) connected
          (required connected) id
      · exact .left .close pool woken rfl rfl closing closer
    | false =>
      obtain ⟨woken, -, closer⟩ | ⟨woken, closing, closer⟩ := place
      · exact .gone rfl woken turn.1 (.inl closer)
      · exact .after rfl woken turn.1 closing closer rfl
  · have busy : s.co ≠ none := by simp [co]
    rw [if_pos connected, Sock.awaitClose, if_neg busy, if_pos closing]
    exact .suspended pool woken co closer (.inr ⟨rfl, rfl⟩) connected

theorem Phase.call (phase : Phase s) (call : Call) (turn : Turn s) : Phase (s.call call) := by
  cases pool : s.pool with
  | false => exact phase.gives turn.1 (call_gone call pool)
  | true =>
    by_cases closes : call = .close
    · subst closes
      exact phase.callClose pool turn
    · obtain ⟨given, -⟩ | ⟨awaits, connected, unready⟩ := call_cases closes pool
      · exact phase.gives turn.1 given
      · rw [awaits]
        exact phase.await pool connected unready turn

theorem Phase.still (phase : Phase s) (pool : s.pool = true) (quiet : s.woken = none) :
    (s.waiting = none ∧ s.co = none ∧ s.closing = none ∧ s.closer = .idle ∧
        (s.connected = true → s.required = .nothing)) ∨
      (∃ call, s.waiting = some call ∧ s.co = some .reader ∧ Behind s ∧ s.connected = true ∧
        s.required = call.need ∧ ¬Ready s.buffer call) ∨
      (s.co = some .closer ∧ s.closer = .suspended ∧ Second s ∧ s.connected = true) := by
  cases phase with
  | quiet _ _ waiting co closing closer required =>
    exact .inl ⟨waiting, co, closing, closer, required⟩
  | waits call _ _ waiting co behind connected required unready =>
    exact .inr (.inl ⟨call, waiting, co, behind, connected, required, unready⟩)
  | suspended _ _ co closer second connected => exact .inr (.inr ⟨co, closer, second, connected⟩)
  | gone gone | stranded _ gone => cases pool.symm.trans gone
  | woken _ _ woken | turn _ woken | left _ _ woken | closes _ woken | after _ woken
  | told _ woken => cases quiet.symm.trans woken

theorem Phase.close (phase : Phase s) (quiet : s.woken = none) (idle : s.closer = .idle) :
    Phase s.close := by
  unfold Sock.close
  by_cases pool : s.pool = true
  · rw [if_pos pool]
    obtain ⟨waiting, co, closing, -, required⟩ |
      ⟨call, waiting, co, behind, connected, required, unready⟩ | ⟨-, closer, -⟩ :=
      phase.still pool quiet
    · by_cases connected : s.connected = true
      · rw [if_pos connected, Sock.awaitClose, if_pos co]
        exact .suspended pool quiet rfl (if_pos co) (.inl ⟨waiting, closing⟩) connected
      · rw [if_neg connected]
        exact .gone rfl quiet waiting (.inr rfl)
    · have busy : s.co ≠ none := by simp [co]
      obtain ⟨closing, -⟩ | ⟨-, closer⟩ := behind
      · rw [if_pos connected, Sock.awaitClose, if_neg busy, if_pos closing]
        exact .waits call pool quiet waiting co (.inr ⟨rfl, if_neg busy⟩) connected required unready
      · cases idle.symm.trans closer
    · cases idle.symm.trans closer
  · rw [if_neg pool]
    cases phase with
    | gone pool woken waiting closer => exact .gone pool woken waiting (.inr rfl)
    | stranded _ _ _ _ _ closer | told _ _ _ _ _ closer | after _ _ _ _ closer =>
      cases idle.symm.trans closer
    | quiet held | waits _ held | woken _ held | turn held | left _ held | suspended held
    | closes held => exact absurd held pool

theorem Phase.resumeReader {call : Call} (phase : Phase s) (woken : s.woken = some .reader)
    (waiting : s.waiting = some call) : Phase (s.resumeReader call) := by
  unfold Sock.resumeReader
  cases phase with
  | woken call' pool _ waiting' co behind called =>
    obtain rfl := Option.some.inj (waiting.symm.trans waiting')
    have required (alive : s.connected = true) : s.required = .nothing := by
      obtain ⟨-, required, -⟩ | ⟨lost, -⟩ := called
      · exact required
      · cases lost.symm.trans alive
    obtain ⟨closing, closer⟩ | ⟨closing, closer⟩ := behind
    · have woken : ({ s with waiting := none }.resumed .reader).woken = none := by
        simp [Sock.resumed, closing]
      by_cases closes : call = .close
      · subst closes
        exact .gone rfl woken rfl (.inl closer)
      · have phase : Phase ({ s with waiting := none }.resumed .reader) :=
          .quiet pool woken rfl co closing closer required
        exact phase.gives rfl (continue_gives closes pool called)
    · have woken : ({ s with waiting := none }.resumed .reader).woken = some .closer := by
        simp [Sock.resumed, closing]
      by_cases closes : call = .close
      · subst closes
        exact .after rfl woken rfl closing closer rfl
      · have phase : Phase ({ s with waiting := none }.resumed .reader) :=
          .turn pool woken rfl co closing closer required
        exact phase.gives rfl (continue_gives closes pool called)
  | told pool _ waiting' co closing closer =>
    obtain rfl := Option.some.inj (waiting.symm.trans waiting')
    exact .gone rfl (by simp [Sock.continue_, Sock.give, Sock.finish, Sock.resumed, closing]) rfl
      (.inr closer)
  | quiet _ quiet | waits _ _ quiet | turn _ quiet | left _ _ quiet | suspended _ quiet
  | closes _ quiet | gone _ quiet | after _ quiet | stranded _ _ quiet =>
    cases woken.symm.trans quiet

theorem Phase.resumeCloser (phase : Phase s) (woken : s.woken = some .closer) :
    Phase s.resumeCloser := by
  cases phase with
  | turn pool _ waiting co closing closer | after pool _ waiting closing closer =>
    exact .gone rfl (by simp [Sock.resumeCloser, Sock.finish, Sock.resumed, closing]) waiting
      (.inr rfl)
  | left call pool _ waiting co closing closer =>
    exact .stranded call rfl (by simp [Sock.resumeCloser, Sock.finish, Sock.resumed, closing])
      waiting co rfl
  | closes pool _ co closer second =>
    obtain ⟨waiting, closing⟩ | ⟨waiting, closing⟩ := second
    · exact .gone rfl (by simp [Sock.resumeCloser, Sock.finish, Sock.resumed, closing]) waiting
        (.inr rfl)
    · exact .told rfl (by simp [Sock.resumeCloser, Sock.finish, Sock.resumed, closing]) waiting co
        closing rfl
  | quiet _ quiet | waits _ _ quiet | woken _ _ quiet | suspended _ quiet | gone _ quiet
  | told _ quiet | stranded _ _ quiet => cases woken.symm.trans quiet

theorem wakeup_cases (s : Sock) :
    (s.co = none ∧ s.wakeup = s) ∨ ∃ who, s.co = some who ∧
      s.wakeup = { s with co := none, woken := some who } := by
  unfold Sock.wakeup
  cases s.co with
  | none => exact .inl ⟨rfl, rfl⟩
  | some who => exact .inr ⟨who, rfl, rfl⟩

theorem Phase.wakeup (phase : Phase s) (quiet : s.woken = none) (pool : s.pool = true)
    (connected : Bool) (required : Required) (buffer received : List UInt8)
    (lost : connected = true → s.connected = true)
    (same : required = s.required ∨ required = .nothing)
    (called : ∀ call, s.waiting = some call → s.co = some .reader →
      Woken { s with connected, required, buffer, received } call) :
    Phase { s with connected, required, buffer, received }.wakeup := by
  obtain ⟨alone, stays⟩ | ⟨who, here, moved⟩ :=
    wakeup_cases { s with connected, required, buffer, received }
  · rw [stays]
    obtain ⟨waiting, co, closing, closer, before⟩ | ⟨_, -, co, -⟩ | ⟨co, -⟩ :=
      phase.still pool quiet
    · exact .quiet pool quiet waiting co closing closer fun alive =>
        same.elim (·.trans (before (lost alive))) id
    · cases co.symm.trans alone
    · cases co.symm.trans alone
  · rw [moved]
    obtain ⟨-, co, -⟩ | ⟨call, waiting, co, behind, -⟩ | ⟨co, closer, second, -⟩ :=
      phase.still pool quiet
    · cases here.symm.trans co
    · obtain rfl := Option.some.inj (here.symm.trans co)
      exact .woken call pool rfl waiting rfl behind (called call waiting co)
    · obtain rfl := Option.some.inj (here.symm.trans co)
      exact .closes pool rfl rfl closer second

theorem Phase.unready (phase : Phase s) (pool : s.pool = true) (quiet : s.woken = none)
    {call : Call} (waiting : s.waiting = some call) :
    s.connected = true ∧ ¬Ready s.buffer call ∧
      (s.co = some .reader → s.required = call.need) := by
  obtain ⟨none_, -⟩ | ⟨call', waiting', -, -, connected, required, unready⟩ |
    ⟨co, -, second, connected⟩ := phase.still pool quiet
  · cases waiting.symm.trans none_
  · obtain rfl := Option.some.inj (waiting.symm.trans waiting')
    exact ⟨connected, unready, fun _ => required⟩
  · obtain ⟨none_, -⟩ | ⟨waiting', -⟩ := second
    · cases waiting.symm.trans none_
    · obtain rfl := Option.some.inj (waiting.symm.trans waiting')
      exact ⟨connected, id, fun reader => by cases reader.symm.trans co⟩

theorem Phase.disconnected (phase : Phase s) (pool : s.pool = false)
    (woken : s.woken = some .closer) : s.connected = false := by
  cases phase with
  | after _ _ _ _ _ connected => exact connected
  | turn held | left _ held | closes held => cases pool.symm.trans held
  | quiet _ quiet | waits _ _ quiet | woken _ _ quiet | suspended _ quiet | gone _ quiet
  | told _ quiet | stranded _ _ quiet => cases woken.symm.trans quiet

theorem Phase.reader_woken (phase : Phase s) (woken : s.woken = some .reader) : s.co = none := by
  cases phase with
  | woken _ _ _ _ co | told _ _ _ co => exact co
  | quiet _ quiet | waits _ _ quiet | turn _ quiet | left _ _ quiet | suspended _ quiet
  | closes _ quiet | gone _ quiet | after _ quiet | stranded _ _ quiet =>
    cases woken.symm.trans quiet

theorem Phase.closed (phase : Phase s) (quiet : s.woken = none) : Phase s.closed := by
  unfold Sock.closed
  split
  · rename_i pool
    refine phase.wakeup quiet pool false s.required s.buffer s.received (by simp) (.inl rfl) ?_
    intro call waiting _
    exact .inr ⟨rfl, (phase.unready pool quiet waiting).2.1⟩
  · exact phase

-- What has come is enough for what is required.
def Enough (buffer : List UInt8) : Required → Prop
  | .size n => n ≤ buffer.length
  | .line sep => sep.bytes <:+: buffer
  | .all | .nothing => False

theorem wakes_of_enough {buffer : List UInt8} {call : Call} (held : buffer ≠ [])
    (enough : Enough buffer call.need) : Wakes buffer call := by
  cases call with
  | some_ => exact held
  | block => trivial
  | size n | all | line sep | close => exact enough

theorem unready_of_short {buffer : List UInt8} {call : Call}
    (short : ¬Enough buffer call.need) : ¬Ready buffer call := by
  cases call with
  | some_ => exact absurd (Nat.zero_le buffer.length) short
  | size n => exact fun ready => short ready.2
  | line sep => exact short
  | all | block | close => exact id

theorem unready_empty {call : Call} (unsized : ∀ n, call.need ≠ .size n) : ¬Ready [] call := by
  cases call with
  | some_ => exact absurd rfl (unsized 0)
  | size n => exact absurd rfl (unsized n)
  | line sep => exact fun inside => sep.filled (List.infix_nil.mp inside)
  | all | block | close => exact id

theorem find_isSome_iff (sep : Separator) (buffer : List UInt8) :
    (Search.find sep.bytes buffer).isSome = true ↔ sep.bytes <:+: buffer := by
  rw [← Option.ne_none_iff_isSome, ne_eq, Search.find_none_iff sep.filled, not_not]

theorem serve_cases (s : Sock) :
    (s.serve = s.rouse ∧ Enough s.buffer s.required) ∨
      (s.serve = s ∧ ¬Enough s.buffer s.required) ∨
      (s.serve = s.overflow ∧ ∀ n, s.required ≠ .size n) := by
  unfold Sock.serve
  cases s.required with
  | size n =>
    simp only
    split
    · exact .inl ⟨rfl, ‹_›⟩
    · exact .inr (.inl ⟨rfl, ‹_›⟩)
  | line sep =>
    simp only [find_isSome_iff]
    split
    · exact .inr (.inr ⟨rfl, by simp⟩)
    · split
      · exact .inl ⟨rfl, ‹_›⟩
      · exact .inr (.inl ⟨rfl, ‹_›⟩)
  | all | nothing =>
    simp only
    split
    · exact .inr (.inr ⟨rfl, by simp⟩)
    · exact .inr (.inl ⟨rfl, id⟩)

theorem Phase.arrived (phase : Phase s) (pool : s.pool = true) (quiet : s.woken = none)
    (buffer received : List UInt8) (overflowed : Bool)
    (unready : ∀ call, s.waiting = some call → s.co = some .reader → ¬Ready buffer call) :
    Phase { s with buffer, received, overflowed } := by
  obtain ⟨waiting, co, closing, closer, required⟩ |
    ⟨call, waiting, co, behind, connected, required, -⟩ | ⟨co, closer, second, connected⟩ :=
    phase.still pool quiet
  · exact .quiet pool quiet waiting co closing closer required
  · exact .waits call pool quiet waiting co behind connected required (unready call waiting co)
  · exact .suspended pool quiet co closer second connected

theorem Phase.data (phase : Phase s) (quiet : s.woken = none) (chunk : List UInt8)
    (packet : chunk ≠ []) : Phase (s.data chunk) := by
  unfold Sock.data
  split
  · rename_i pool
    have required {call : Call} (waiting : s.waiting = some call) (co : s.co = some .reader) :
        s.required = call.need := (phase.unready pool quiet waiting).2.2 co
    obtain ⟨serve, enough⟩ | ⟨serve, short⟩ | ⟨serve, unsized⟩ := serve_cases (s.pushed chunk)
    · rw [serve]
      refine phase.wakeup quiet pool s.connected .nothing _ _ id (.inr rfl) ?_
      intro call waiting co
      have filled : s.buffer ++ chunk ≠ [] := by simp [packet]
      have wakes : Wakes (s.buffer ++ chunk) call :=
        wakes_of_enough filled (required waiting co ▸ enough)
      exact .inl ⟨(phase.unready pool quiet waiting).1, rfl, wakes⟩
    · rw [serve]
      refine phase.arrived pool quiet _ _ _ fun call waiting co => ?_
      exact unready_of_short (required waiting co ▸ short)
    · rw [serve]
      refine phase.arrived pool quiet _ _ _ fun call waiting co => ?_
      exact unready_empty (required waiting co ▸ unsized)
  · exact phase

theorem Streamed.gives {call : Call} (streamed : Streamed s) (given : Gives s call next) :
    Streamed next := by
  obtain ⟨result, buffer, rfl, parts, fits, raised, gone⟩ := given
  constructor
  · intro kept
    obtain ⟨rest, received, same⟩ := streamed.stream kept
    simp only [consumed_append]
    cases pool : s.pool with
    | false =>
      refine ⟨rest, ?_, by simp⟩
      rw [received, gone pool, List.append_nil]
    | true =>
      refine ⟨buffer, ?_, fun _ => rfl⟩
      rw [received, same pool, ← parts, List.append_assoc]
  · simp only [List.mem_append, List.mem_singleton]
    rintro given (before | rfl)
    · exact streamed.fits given before
    · exact fits
  · simp only [List.mem_append, List.mem_singleton]
    rintro given (before | rfl) failed
    · exact streamed.raised given before failed
    · exact .inr (raised failed)

-- What the coroutines are, and what is required, is not what the stream is about.
theorem Streamed.same (streamed : Streamed s) (overflowed : next.overflowed = s.overflowed)
    (received : next.received = s.received) (results : next.results = s.results)
    (buffer : next.pool = true → s.pool = true ∧ next.buffer = s.buffer)
    (raised : s.closer = .suspended ∨ s.pool = false → next.closer = .suspended ∨ next.pool = false) :
    Streamed next := by
  constructor
  · intro kept
    obtain ⟨rest, before, same⟩ := streamed.stream (overflowed ▸ kept)
    refine ⟨rest, by rw [received, results, before], fun pool => ?_⟩
    rw [same (buffer pool).1, (buffer pool).2]
  · rw [results]
    exact streamed.fits
  · rw [results]
    exact fun given inside failed => raised (streamed.raised given inside failed)

theorem Streamed.finish (streamed : Streamed s) : Streamed s.finish :=
  streamed.same rfl rfl rfl nofun fun _ => .inr rfl

theorem Streamed.given (streamed : Streamed s) {call : Call} {result : Result}
    (bytes : result.consumed = []) (fits : Fits call result)
    (raised : result = .raised → s.closer = .suspended ∨ s.pool = false) :
    Streamed (s.give call result) := by
  constructor
  · intro kept
    simp only [Sock.give, consumed_append, bytes, List.append_nil]
    exact streamed.stream kept
  · simp only [Sock.give, List.mem_append, List.mem_singleton]
    rintro given (before | rfl)
    · exact streamed.fits given before
    · exact fits
  · simp only [Sock.give, List.mem_append, List.mem_singleton]
    rintro given (before | rfl) failed
    · exact streamed.raised given before failed
    · exact raised failed

theorem fits_raised (call : Call) : Fits call .raised := by
  cases call <;> trivial

theorem Streamed.await {call : Call} (streamed : Streamed s) (phase : Phase s)
    (pool : s.pool = true) (connected : s.connected = true) (turn : Turn s) :
    Streamed (s.await call call.need) := by
  have unchanged : Streamed { s with required := call.need } :=
    streamed.same rfl rfl rfl (fun pool => ⟨pool, rfl⟩) id
  unfold Sock.await
  obtain ⟨co, required, -⟩ | ⟨-, -, -, late, -⟩ := phase.called pool turn
  · rw [if_neg (not_not_intro (required connected)), if_neg (not_not_intro co)]
    exact streamed.same rfl rfl rfl (fun pool => ⟨pool, rfl⟩) id
  · split_ifs
    · exact streamed.given rfl (fits_raised call) fun _ => .inl late
    · exact unchanged.given rfl (fits_raised call) fun _ => .inl late
    · exact streamed.same rfl rfl rfl (fun pool => ⟨pool, rfl⟩) id

theorem awaitClose_cases {who : Who} (taken : s.awaitClose who = some next) :
    next = { s with co := some who } ∨ next = { s with closing := some who } := by
  unfold Sock.awaitClose at taken
  split_ifs at taken
  · exact .inl (Option.some.inj taken).symm
  · exact .inr (Option.some.inj taken).symm

theorem Streamed.callClose (streamed : Streamed s) (phase : Phase s) (pool : s.pool = true)
    (turn : Turn s) : Streamed (s.call .close) := by
  simp only [Sock.call, pool, if_true]
  split_ifs with connected
  · cases awaited : s.awaitClose .reader with
    | none =>
      refine streamed.given rfl trivial fun _ => ?_
      obtain ⟨co, -⟩ | ⟨-, -, -, late, -⟩ := phase.called pool turn
      · rw [Sock.awaitClose, if_pos co] at awaited
        cases awaited
      · exact .inl late
    | some next =>
      obtain rfl | rfl := awaitClose_cases awaited
      · exact streamed.same rfl rfl rfl (fun pool => ⟨pool, rfl⟩) id
      · exact streamed.same rfl rfl rfl (fun pool => ⟨pool, rfl⟩) id
  · exact streamed.finish.given rfl trivial nofun

theorem Streamed.call (streamed : Streamed s) (phase : Phase s) (call : Call) (turn : Turn s) :
    Streamed (s.call call) := by
  cases pool : s.pool with
  | false => exact streamed.gives (call_gone call pool)
  | true =>
    by_cases closes : call = .close
    · subst closes
      exact streamed.callClose phase pool turn
    · obtain ⟨given, -⟩ | ⟨awaits, connected, -⟩ := call_cases closes pool
      · exact streamed.gives given
      · rw [awaits]
        exact streamed.await phase pool connected turn

theorem Streamed.wakeup (streamed : Streamed s) : Streamed s.wakeup := by
  unfold Sock.wakeup
  split
  · exact streamed.same rfl rfl rfl (fun pool => ⟨pool, rfl⟩) id
  · exact streamed

theorem Streamed.close (streamed : Streamed s) (idle : s.closer = .idle) : Streamed s.close := by
  have lost : s.closer = .suspended ∨ s.pool = false → s.pool = false := by
    rintro (late | lost)
    · cases idle.symm.trans late
    · exact lost
  unfold Sock.close
  by_cases pool : s.pool = true
  · rw [if_pos pool]
    by_cases connected : s.connected = true
    · rw [if_pos connected]
      cases awaited : s.awaitClose .closer with
      | none => exact streamed.same rfl rfl rfl (fun pool => ⟨pool, rfl⟩) fun is => .inr (lost is)
      | some next =>
        obtain rfl | rfl := awaitClose_cases awaited
        · exact streamed.same rfl rfl rfl (fun pool => ⟨pool, rfl⟩) fun is => .inr (lost is)
        · exact streamed.same rfl rfl rfl (fun pool => ⟨pool, rfl⟩) fun is => .inr (lost is)
    · rw [if_neg connected]
      exact streamed.same rfl rfl rfl nofun fun _ => .inr rfl
  · rw [if_neg pool]
    exact streamed.same rfl rfl rfl (fun pool => ⟨pool, rfl⟩) fun is => .inr (lost is)

theorem Streamed.closed (streamed : Streamed s) : Streamed s.closed := by
  unfold Sock.closed
  split
  · exact Streamed.wakeup (streamed.same rfl rfl rfl (fun pool => ⟨pool, rfl⟩) id)
  · exact streamed

theorem Streamed.pushed (streamed : Streamed s) (chunk : List UInt8) (pool : s.pool = true) :
    Streamed (s.pushed chunk) := by
  refine ⟨?_, streamed.fits, streamed.raised⟩
  intro kept
  obtain ⟨rest, received, same⟩ := streamed.stream kept
  refine ⟨s.buffer ++ chunk, ?_, fun _ => rfl⟩
  simp only [Sock.pushed]
  rw [received, same pool, List.append_assoc]

theorem Streamed.data (streamed : Streamed s) (chunk : List UInt8) : Streamed (s.data chunk) := by
  unfold Sock.data
  split
  · rename_i pool
    have pushed := streamed.pushed chunk pool
    obtain ⟨serve, -⟩ | ⟨serve, -⟩ | ⟨serve, -⟩ := serve_cases (s.pushed chunk) <;> rw [serve]
    · exact Streamed.wakeup (pushed.same rfl rfl rfl (fun pool => ⟨pool, rfl⟩) id)
    · exact pushed
    · exact ⟨by simp [Sock.overflow], pushed.fits, pushed.raised⟩
  · exact streamed

theorem Streamed.resumeReader {call : Call} (streamed : Streamed s) (phase : Phase s)
    (woken : s.woken = some .reader) (waiting : s.waiting = some call) :
    Streamed (s.resumeReader call) := by
  have resumed : Streamed ({ s with waiting := none }.resumed .reader) :=
    streamed.same rfl rfl rfl (fun pool => ⟨pool, rfl⟩) id
  by_cases closes : call = .close
  · subst closes
    exact resumed.finish.given rfl trivial nofun
  · cases phase with
    | woken call' pool _ waiting' _ _ called =>
      obtain rfl := Option.some.inj (waiting.symm.trans waiting')
      exact resumed.gives (continue_gives closes pool called)
    | told _ _ waiting' => exact absurd (Option.some.inj (waiting.symm.trans waiting')) closes
    | quiet _ quiet | waits _ _ quiet | turn _ quiet | left _ _ quiet | suspended _ quiet
    | closes _ quiet | gone _ quiet | after _ quiet | stranded _ _ quiet =>
      cases woken.symm.trans quiet

structure Served (s : Sock) : Prop where
  phase : Phase s
  streamed : Streamed s

theorem Served.step {action : Action} (served : Served s) (taken : step s action = some next) :
    Served next := by
  obtain ⟨phase, streamed⟩ := served
  cases action with
  | data chunk =>
    simp only [SocketLua.step, Option.ite_none_right_eq_some, Option.some.injEq] at taken
    obtain ⟨⟨quiet, packet, -⟩, rfl⟩ := taken
    exact ⟨phase.data quiet chunk packet, streamed.data chunk⟩
  | closed =>
    simp only [SocketLua.step, Option.ite_none_right_eq_some, Option.some.injEq] at taken
    obtain ⟨quiet, rfl⟩ := taken
    exact ⟨phase.closed quiet, streamed.closed⟩
  | call call =>
    simp only [SocketLua.step, Option.ite_none_right_eq_some, Option.some.injEq] at taken
    obtain ⟨⟨-, turn⟩, rfl⟩ := taken
    exact ⟨phase.call call turn, streamed.call phase call turn⟩
  | close =>
    simp only [SocketLua.step, Option.ite_none_right_eq_some, Option.some.injEq] at taken
    obtain ⟨⟨quiet, idle⟩, rfl⟩ := taken
    exact ⟨phase.close quiet idle, streamed.close idle⟩
  | resume =>
    simp only [SocketLua.step] at taken
    split at taken
    · rename_i call woken waiting
      obtain rfl := Option.some.inj taken
      exact ⟨phase.resumeReader woken waiting, streamed.resumeReader phase woken waiting⟩
    · rename_i woken
      obtain rfl := Option.some.inj taken
      exact ⟨phase.resumeCloser woken, streamed.same rfl rfl rfl nofun fun _ => .inr rfl⟩
    · contradiction

theorem served_start (limit : Option Nat) : Served (.start limit) :=
  ⟨phase_start limit, streamed_start limit⟩

theorem served_run (limit : Option Nat) (actions : List Action) (final : Sock)
    (ran : Transition.run step (.start limit) actions = some final) : Served final :=
  Transition.run_invariant step Served (fun _ _ _ served taken => served.step taken) actions _ final
    (served_start limit) ran

-- What a reader can rely on: it waits only where what it asked for is not there, what it gets is
-- the stream in order, and each result is what the call is for. A call can fail only behind a
-- `socket.close`.
structure Reads (s : Sock) : Prop where
  waits : ∀ call ∈ s.waiting, s.woken = none →
    s.pool = false ∨ (s.connected = true ∧ ¬Ready s.buffer call)
  stream : s.overflowed = false →
    ∃ rest, s.received = consumed s.results ++ rest ∧ (s.pool = true → rest = s.buffer)
  fits : ∀ given ∈ s.results, Fits given.1 given.2
  raised : ∀ given ∈ s.results, given.2 = .raised → s.closer = .suspended ∨ s.pool = false

theorem reader_served (limit : Option Nat) (actions : List Action) (final : Sock)
    (ran : Transition.run step (.start limit) actions = some final) : Reads final := by
  obtain ⟨phase, stream, fits, raised⟩ := served_run limit actions final ran
  refine ⟨?_, stream, fits, raised⟩
  intro call waiting quiet
  cases pool : final.pool with
  | false => exact .inl rfl
  | true =>
    obtain ⟨connected, unready, -⟩ := phase.unready pool quiet waiting
    exact .inr ⟨connected, unready⟩

def crlf : Separator := ⟨[13, 10], by decide, by decide⟩

def newline : Separator := ⟨[10], by decide, by decide⟩

def aLine : List Action :=
  [.call (.line crlf), .data [97], .data [10, 13], .data [10, 98, 99], .resume, .call (.size 3),
    .close, .closed, .resume, .resume]

theorem line_served : ∃ final, Transition.run step (.start (some 8)) aLine = some final ∧
    final.results = [(.line crlf, .line [97, 10] crlf), (.size 3, .ends [98, 99])] ∧ Reads final :=
  ⟨_, rfl, rfl, reader_served (some 8) aLine _ rfl⟩

end Pskynet.SocketLua
