import Pskynet.Gate.Dispatch
import Pskynet.Shared.Transition

set_option autoImplicit false

namespace Pskynet.Gate

-- What comes to a gate for one connection: data, the `forward` command, and the `broker` command
-- with the handle that `skynet_queryname` found.
inductive Input where
  | receive (chunk : Chunk)
  | forward (agent client : UInt32)
  | broker (handle : UInt32)
  deriving DecidableEq, Repr

def Input.bytes : Input → List UInt8
  | .receive chunk => chunk.bytes
  | .forward _ _ => []
  | .broker _ => []

def stream (inputs : List Input) : List UInt8 := inputs.flatMap Input.bytes

structure Session where
  gate : Gate
  connection : Connection
  outputs : List Output
  handled : List (Nat × Nat)
  deriving DecidableEq, Repr

def start (g : Gate) (id : Int) : Session :=
  { gate := g, connection := { id := id, agent := 0, client := 0, buffer := .zero }, outputs := []
    handled := [] }

def Session.after (s : Session) (d : Dispatched) : Session :=
  { s with
    connection := d.connection
    outputs := s.outputs ++ d.outputs
    handled := s.handled ++ d.handled }

def step (s : Session) : Input → Option Session
  | .receive chunk =>
      (dispatchMessage s.gate s.connection s.connection.id chunk.bytes).map s.after
  | .forward agent client =>
      some { s with connection := { s.connection with agent := agent, client := client } }
  | .broker handle => some { s with gate := { s.gate with broker := handle } }

def Completes (style : HeaderStyle) (db : Databuffer) (chunk : List UInt8) : Prop :=
  if db.header = 0 then filled (Framing.split (format style) (db.unread ++ chunk)).1 ≠ []
  else
    0 < db.header ∧ db.header < sizeLimit ∧ db.header.toInt ≤ db.unread.length + chunk.length

def Heard (s : Session) : Input → Prop
  | .receive chunk =>
      receiver s.gate s.connection ≠ none ∨
        ¬Completes s.gate.style s.connection.buffer chunk.bytes
  | .forward _ _ => True
  | .broker _ => True

section
variable {style : HeaderStyle} {db : Databuffer} {bytes : List UInt8}

theorem completes_body (head chunk : List UInt8) (length : head.length = style.size)
    (small : declared style head < 2 ^ 24) (pos : 0 < declared style head) :
    filled (Framing.split (format style) (head ++ db.unread ++ chunk)).1 ≠ [] ↔
      declared style head ≤ db.unread.length + chunk.length := by
  rw [List.append_assoc]
  by_cases whole : declared style head ≤ db.unread.length + chunk.length
  · have found := next_whole (db.unread ++ chunk) length small
      (by rw [List.length_append]; exact whole)
    have some_ : (db.unread ++ chunk).take (declared style head) ≠ [] := by
      apply List.length_pos_iff.mp
      rw [List.length_take, List.length_append]
      omega
    rw [Framing.split_some _ _ _ _ found, filled_cons _ _ some_]
    simp [whole]
  · have part := next_part (db.unread ++ chunk) length
      (by rw [List.length_append]; omega)
    rw [Framing.split_none _ _ part]
    simp [whole]

theorem Rests.completes_iff (rests : Rests style db bytes) (chunk : List UInt8) :
    Completes style db chunk ↔ filled (Framing.split (format style) (bytes ++ chunk)).1 ≠ [] := by
  unfold Completes
  cases rests with
  | header counted none_ short => rw [if_pos none_]
  | body counted head length header small short =>
      have value : db.header.toInt = declared style head := by
        rw [header, Int32.toInt_ofNat_of_lt (by omega)]
      have limit : sizeLimit.toInt = 2 ^ 24 := by decide
      have some_ : db.header ≠ 0 := by
        intro none_
        rw [none_, Int32.toInt_zero] at value
        omega
      rw [if_neg some_, completes_body head chunk length small (by omega), Int32.lt_iff_toInt_lt,
        Int32.lt_iff_toInt_lt, value, limit, Int32.toInt_zero]
      omega
  | oversized sized head length header large =>
      have value := declaredSize_eq style head length
      have part := next_oversized (db.unread ++ chunk) length large
      have limit : sizeLimit.toInt = 2 ^ 24 := by decide
      rw [List.append_assoc, Framing.split_none _ _ part, Int32.lt_iff_toInt_lt,
        Int32.lt_iff_toInt_lt, limit, Int32.toInt_zero, header]
      by_cases negative : 2 ^ 31 ≤ declared style head
      · have below := toInt32_neg (declaredSize style head) (by omega)
        have some_ : (declaredSize style head).toInt32 ≠ 0 := by
          intro none_
          rw [none_] at below
          exact absurd below (by decide)
        rw [Int32.lt_iff_toInt_lt, Int32.toInt_zero] at below
        simp only [some_, if_false, filled_nil, ne_eq, not_true_eq_false, iff_false]
        omega
      · have read := toInt_toInt32 (declaredSize style head) (by omega)
        have some_ : (declaredSize style head).toInt32 ≠ 0 := by
          intro none_
          rw [none_, Int32.toInt_zero] at read
          omega
        simp only [some_, if_false, filled_nil, ne_eq, not_true_eq_false, iff_false]
        omega

end

theorem Rests.heard_iff {s : Session} {bytes : List UInt8}
    (rests : Rests s.gate.style s.connection.buffer bytes) (chunk : Chunk) :
    Heard s (.receive chunk) ↔ Received s.gate s.connection (bytes ++ chunk.bytes) := by
  show _ ∨ ¬Completes s.gate.style s.connection.buffer chunk.bytes ↔ _
  rw [rests.completes_iff, not_not]
  rfl

def Output.body : Output → Option (List UInt8)
  | .send message => some message.body
  | .close _ => none
  | .error _ => none

theorem receiver_body {g : Gate} {c : Connection} {send : List UInt8 → Send}
    (given : receiver g c = some send) (body : List UInt8) : (send body).body = body := by
  unfold receiver at given
  split_ifs at given
  all_goals
    obtain rfl := Option.some.inj given
    rfl

theorem sends_body {g : Gate} {c : Connection} {bytes : List UInt8}
    (received : Received g c bytes) :
    (sends g c (filled (Framing.split (format g.style) bytes).1)).map Output.body =
      (filled (Framing.split (format g.style) bytes).1).map some := by
  unfold sends
  cases given : receiver g c with
  | some send =>
      rw [List.map_map]
      exact List.map_congr_left fun body _ => congrArg some (receiver_body given body)
  | none =>
      obtain heard | nothing := received
      · exact absurd given heard
      · rw [nothing]
        rfl

structure Reads (s : Session) (bytes : List UInt8) : Prop where
  rests : Rests s.gate.style s.connection.buffer
    (Framing.split (format s.gate.style) bytes).2
  outputs : s.outputs.map Output.body =
    (filled (Framing.split (format s.gate.style) bytes).1).map some

theorem start_reads (g : Gate) (id : Int) : Reads (start g id) [] := by
  have nothing : Framing.split (format g.style) [] = ([], []) :=
    Framing.split_none _ _ (next_short g.style [] g.style.size_pos)
  constructor
  · show Rests g.style .zero (Framing.split (format g.style) []).2
    rw [nothing]
    exact zero_rests g.style
  · show [] = (filled (Framing.split (format g.style) []).1).map some
    rw [nothing]
    rfl

theorem oversized_append {style : HeaderStyle} {bytes : List UInt8} (more : List UInt8)
    (oversized : Oversized style bytes) : Oversized style (bytes ++ more) := by
  obtain ⟨enough, large⟩ := oversized
  refine ⟨by rw [List.length_append]; omega, ?_⟩
  unfold declared
  rw [List.take_append_of_le_length enough]
  exact large

theorem next_of_oversized {style : HeaderStyle} {bytes : List UInt8}
    (oversized : Oversized style bytes) : Framing.next (format style) bytes = none := by
  have length : (bytes.take style.size).length = style.size := by
    rw [List.length_take]
    have := oversized.1
    omega
  have same : declared style (bytes.take style.size) = declared style bytes := by
    rw [declared, List.take_take, Nat.min_self, declared]
  have part := next_oversized (bytes.drop style.size) length (by rw [same]; exact oversized.2)
  rwa [List.take_append_drop] at part

theorem split_oversized {style : HeaderStyle} {bytes : List UInt8} (more : List UInt8)
    (oversized : Oversized style (Framing.split (format style) bytes).2) :
    Framing.split (format style) (bytes ++ more) =
      ((Framing.split (format style) bytes).1, (Framing.split (format style) bytes).2 ++ more) := by
  rw [Framing.split_append,
    Framing.split_none _ _ (next_of_oversized (oversized_append more oversized)), List.append_nil]

theorem oversized_later {style : HeaderStyle} {bytes : List UInt8} (more : List UInt8)
    (oversized : Oversized style (Framing.split (format style) bytes).2) :
    Oversized style (Framing.split (format style) (bytes ++ more)).2 := by
  rw [split_oversized more oversized]
  exact oversized_append more oversized

variable {s : Session} {bytes : List UInt8}

theorem dispatch_rests (left : List UInt8) (rests : Rests s.gate.style s.connection.buffer left)
    (chunk : Chunk) : ∃ d, step s (.receive chunk) = some (s.after d) ∧
      Outcome s.gate s.connection s.connection.id (left ++ chunk.bytes) d := by
  obtain ⟨d, ran, outcome⟩ : ∃ d,
      dispatchMessage s.gate s.connection s.connection.id chunk.bytes = some d ∧
        Outcome s.gate s.connection s.connection.id (left ++ chunk.bytes) d :=
    dispatchMessage_outcome chunk rests
  refine ⟨d, ?_, outcome⟩
  rw [step, ran]
  rfl

theorem step_reads (reads : Reads s bytes) (input : Input) (heard : Heard s input)
    (small : ¬Oversized s.gate.style (Framing.split (format s.gate.style) (bytes ++ input.bytes)).2) :
    ∃ t, step s input = some t ∧ t.gate.style = s.gate.style ∧ Reads t (bytes ++ input.bytes) := by
  cases input with
  | receive chunk =>
      obtain ⟨d, ran, outcome⟩ := dispatch_rests _ reads.rests chunk
      have received := (reads.rests.heard_iff chunk).mp heard
      obtain ⟨-, ends, ended, outputs⟩ := outcome.splits received
      have split := Framing.split_append (format s.gate.style) bytes chunk.bytes
      refine ⟨s.after d, ran, rfl, ?_⟩
      cases ended with
      | closed _ large _ =>
          refine absurd ?_ small
          show Oversized s.gate.style (Framing.split _ (bytes ++ chunk.bytes)).2
          rw [split]
          exact large
      | waiting rests =>
          constructor
          · show Rests s.gate.style d.connection.buffer
              (Framing.split (format s.gate.style) (bytes ++ chunk.bytes)).2
            rw [split]
            exact rests
          · show (s.outputs ++ d.outputs).map Output.body =
              (filled (Framing.split (format s.gate.style) (bytes ++ chunk.bytes)).1).map some
            rw [split, filled_append, List.map_append, List.map_append, reads.outputs, outputs,
              List.append_nil, sends_body received]
  | forward agent client =>
      refine ⟨_, rfl, rfl, ?_⟩
      rw [Input.bytes, List.append_nil]
      exact ⟨reads.rests, reads.outputs⟩
  | broker handle =>
      refine ⟨_, rfl, rfl, ?_⟩
      rw [Input.bytes, List.append_nil]
      exact ⟨reads.rests, reads.outputs⟩

theorem run_reads (inputs : List Input) (reads : Reads s bytes)
    (heard : Transition.Along step Heard s inputs)
    (small : ¬Oversized s.gate.style
      (Framing.split (format s.gate.style) (bytes ++ stream inputs)).2) :
    ∃ t, Transition.run step s inputs = some t ∧ t.gate.style = s.gate.style ∧
      Reads t (bytes ++ stream inputs) := by
  induction inputs generalizing s bytes with
  | nil =>
      refine ⟨s, rfl, rfl, ?_⟩
      rw [stream, List.flatMap_nil, List.append_nil]
      exact reads
  | cons input inputs ih =>
      obtain ⟨allow, later⟩ := heard
      have split : bytes ++ stream (input :: inputs) = bytes ++ input.bytes ++ stream inputs := by
        rw [stream, List.flatMap_cons, List.append_assoc, stream]
      rw [split] at small ⊢
      obtain ⟨next, taken, style, reads⟩ := step_reads reads input allow
        fun oversized => small (oversized_later _ oversized)
      rw [taken] at later
      obtain ⟨t, ran, same, reads⟩ := ih reads later (by rwa [style])
      refine ⟨t, ?_, same.trans style, reads⟩
      rw [Transition.run, taken]
      exact ran

def Session.Resting (s : Session) : Prop := ∃ left, Rests s.gate.style s.connection.buffer left

theorem start_resting (g : Gate) (id : Int) : (start g id).Resting := ⟨[], zero_rests g.style⟩

def Whole (handled : List (Nat × Nat)) : Prop := ∀ frame ∈ handled, frame.2 = frame.1

instance (handled : List (Nat × Nat)) : Decidable (Whole handled) :=
  inferInstanceAs (Decidable (∀ frame ∈ handled, frame.2 = frame.1))

theorem whole_append (first second : List (Nat × Nat)) :
    Whole (first ++ second) ↔ Whole first ∧ Whole second := by
  simp only [Whole, List.mem_append, or_imp, forall_and]

theorem step_whole (resting : s.Resting) (input : Input) :
    ∃ t more, step s input = some t ∧ t.Resting ∧ t.handled = s.handled ++ more ∧
      (Whole more ↔ Heard s input) := by
  obtain ⟨left, rests⟩ := resting
  cases input with
  | receive chunk =>
      obtain ⟨d, ran, outcome⟩ := dispatch_rests left rests chunk
      refine ⟨s.after d, d.handled, ran, outcome.rests, rfl, ?_⟩
      rw [rests.heard_iff]
      constructor
      · intro whole
        by_contra alone
        obtain ⟨n, pos, inside⟩ := outcome.stays alone
        have none_ : 0 = n := whole (n, 0) inside
        omega
      · intro received frame inside
        rw [(outcome.splits received).handled] at inside
        obtain ⟨body, -, rfl⟩ := List.mem_map.mp inside
        rfl
  | forward agent client =>
      refine ⟨_, [], rfl, ⟨left, rests⟩, (List.append_nil _).symm, ?_⟩
      exact iff_of_true (fun _ inside => nomatch inside) trivial
  | broker handle =>
      refine ⟨_, [], rfl, ⟨left, rests⟩, (List.append_nil _).symm, ?_⟩
      exact iff_of_true (fun _ inside => nomatch inside) trivial

theorem run_whole (inputs : List Input) (resting : s.Resting) :
    ∃ t more, Transition.run step s inputs = some t ∧ t.handled = s.handled ++ more ∧
      (Whole more ↔ Transition.Along step Heard s inputs) := by
  induction inputs generalizing s with
  | nil =>
      refine ⟨s, [], rfl, (List.append_nil _).symm, ?_⟩
      exact iff_of_true (fun _ inside => nomatch inside) trivial
  | cons input inputs ih =>
      obtain ⟨next, first, taken, resting, handled, here⟩ := step_whole resting input
      obtain ⟨t, more, ran, later, rest⟩ := ih resting
      refine ⟨t, first ++ more, ?_, ?_, ?_⟩
      · rw [Transition.run, taken]
        exact ran
      · rw [later, handled, List.append_assoc]
      · rw [whole_append, here, rest, Transition.Along, taken]

theorem consumes_whole_iff (g : Gate) (id : Int) (inputs : List Input) :
    ∃ s, Transition.run step (start g id) inputs = some s ∧
      (Whole s.handled ↔ Transition.Along step Heard (start g id) inputs) := by
  obtain ⟨s, more, ran, handled, iff⟩ := run_whole inputs (start_resting g id)
  have all : s.handled = more := handled
  refine ⟨s, ran, ?_⟩
  rw [all]
  exact iff

-- `gate S ! 0.0.0.0:8888 0 64`, and a frame before an agent is there.
theorem watchdog_missing : ∃ s, Transition.run step (start ⟨0, 0, 3, .S⟩ 5)
    [.receive ⟨[0, 1, 65], by decide, by decide⟩] = some s ∧ ¬Whole s.handled :=
  ⟨_, rfl, by decide⟩

end Pskynet.Gate
