import Pskynet.Buffer.Pop
import Pskynet.Shared.Transition

set_option autoImplicit false

namespace Pskynet.Buffer

open CInt

inductive Call where
  | push (b : Nat) (msg : List UInt8)
  | pop (b n : Nat)
  | readall (b : Nat)
  | clear (b : Nat)
  deriving DecidableEq

inductive Reply where
  | pushed (size : Int)
  | popped (bytes : Option (List UInt8)) (size : Int)
  | all (bytes : List UInt8)
  | cleared
  deriving DecidableEq

def serve (state : State) : Call → Option (State × Reply)
  | .push b msg => (lpushbuffer state b msg).map fun (next, size) => (next, .pushed size)
  | .pop b n => (lpopbuffer state b n).map fun (next, bytes, size) => (next, .popped bytes size)
  | .readall b => (lreadall state b).map fun (next, bytes) => (next, .all bytes)
  | .clear b => (lclearbuffer state b).map fun next => (next, .cleared)

def serveAll : State → List Call → Option (State × List Reply)
  | state, [] => some (state, [])
  | state, call :: rest => do
      let (next, reply) ← serve state call
      let (final, replies) ← serveAll next rest
      some (final, reply :: replies)

abbrev Streams : Type := Nat → List UInt8

def expect (streams : Streams) : Call → Streams × Reply
  | .push b msg =>
      let stream := streams b ++ msg
      (Function.update streams b stream, .pushed stream.length)
  | .pop b n =>
      if (streams b).length < n then (streams, .popped none (streams b).length)
      else
        let stream := (streams b).drop n
        (Function.update streams b stream, .popped (some ((streams b).take n)) stream.length)
  | .readall b => (Function.update streams b [], .all (streams b))
  | .clear b => (Function.update streams b [], .cleared)

def expectAll : Streams → List Call → Streams × List Reply
  | streams, [] => (streams, [])
  | streams, call :: rest =>
      let (next, reply) := expect streams call
      let (final, replies) := expectAll next rest
      (final, reply :: replies)

def Call.Proper : Call → Prop
  | .push _ msg => msg ≠ []
  | .pop _ n => 0 < n
  | .readall _ => True
  | .clear _ => True

instance (call : Call) : Decidable call.Proper := by
  cases call <;> unfold Call.Proper <;> infer_instance

def InBuffer (state : State) (b n : Nat) : Prop :=
  Linked.Reaches state.links (state.buffer b).head n

def InFree (state : State) (n : Nat) : Prop := Linked.Reaches state.links state.pool.free n

def Apart (state : State) : Prop :=
  ∀ n, (∀ b c, InBuffer state b n → InBuffer state c n → b = c) ∧
    ∀ b, InBuffer state b n → ¬InFree state n

def Agrees (state : State) (streams : Streams) (calls : List Call) : Prop :=
  ∃ final, serveAll state calls = some (final, (expectAll streams calls).2) ∧
    (∀ b, (final.buffer b).size = ((expectAll streams calls).1 b).length) ∧ Apart final

-- The numbers fit: a buffer holds what an `int` counts, and so does a pop, unless the `int` it
-- is cut to is no number of bytes that are there either.
def Fits (streams : Streams) : Call → Prop
  | .push b msg => (streams b).length + msg.length < 2 ^ 31
  | .pop b n => n < 2 ^ 31 ∨ toInt n = 0 ∨ (streams b).length < toInt n
  | .readall _ => True
  | .clear _ => True

instance (streams : Streams) (call : Call) : Decidable (Fits streams call) := by
  cases call <;> unfold Fits <;> infer_instance

def follow (streams : Streams) (call : Call) : Option Streams := some (expect streams call).1

theorem Chunked.apart {state : State} {chunks : Nat → List (List UInt8)}
    (chunked : Chunked state chunks) : Apart state := by
  obtain ⟨chain, free, stored⟩ := chunked
  intro n
  have inBuffer (b : Nat) : InBuffer state b n → n ∈ chain b :=
    ((stored.listed b).mem_iff n).mpr
  refine ⟨fun b c one two => stored.apart b c n (inBuffer b one) (inBuffer c two), ?_⟩
  intro b one two
  exact stored.idle b n (inBuffer b one) ((stored.pooled.mem_iff n).mpr two)

structure Represents (state : State) (streams : Streams) : Prop where
  held : ∃ chunks, Chunked state chunks ∧ ∀ b, (chunks b).flatten = streams b
  sizes : ∀ b, (state.buffer b).size = (streams b).length
  small : ∀ b, (streams b).length < 2 ^ 31

theorem init_represents : Represents init fun _ => [] :=
  ⟨⟨fun _ => [], init_chunked, fun _ => rfl⟩, fun _ => rfl, fun _ => by simp⟩

theorem Represents.set {state next : State} {streams : Streams} {chunks : Nat → List (List UInt8)}
    (before : Represents state streams) (held : ∀ b, (chunks b).flatten = streams b) (b : Nat)
    (parts : List (List UInt8)) (stream : List UInt8) (same : parts.flatten = stream)
    (chunked : Chunked next (Function.update chunks b parts))
    (size : (next.buffer b).size = stream.length) (small : stream.length < 2 ^ 31)
    (sizes : ∀ c, c ≠ b → (next.buffer c).size = (state.buffer c).size) :
    Represents next (Function.update streams b stream) := by
  refine ⟨⟨_, chunked, ?_⟩, ?_, ?_⟩
  · intro c
    by_cases other : c = b
    · subst other
      rwa [Function.update_self, Function.update_self]
    · rw [Function.update_of_ne other, Function.update_of_ne other, held c]
  · intro c
    by_cases other : c = b
    · subst other
      rw [Function.update_self, size]
    · rw [Function.update_of_ne other, sizes c other, before.sizes c]
  · intro c
    by_cases other : c = b
    · subst other
      rwa [Function.update_self]
    · rw [Function.update_of_ne other]
      exact before.small c

variable {state : State} {streams : Streams}

theorem Represents.push (before : Represents state streams) (b : Nat) (msg : List UInt8)
    (filled : msg ≠ []) (fits : (streams b).length + msg.length < 2 ^ 31) :
    ∃ next, serve state (.push b msg) = some (next, (expect streams (.push b msg)).2) ∧
      Represents next (expect streams (.push b msg)).1 := by
  obtain ⟨chunks, chunked, held⟩ := before.held
  have before_ := before.sizes b
  obtain ⟨next, taken, kept, size, others⟩ := chunked.push b filled
    (toInt_eq (by omega) (by omega)) (arith_eq (by omega) (by omega))
  have total : (state.buffer b).size + msg.length = (streams b ++ msg).length := by
    rw [before_, List.length_append]
    rfl
  rw [total] at taken size
  refine ⟨next, ?_, ?_⟩
  · simp only [serve, taken, Option.map_some, expect]
  · refine before.set held b _ _ ?_ kept size (by rwa [List.length_append]) others
    rw [List.flatten_append, held b, List.flatten_singleton]

theorem Represents.pop (before : Represents state streams) (b n : Nat) (positive : 0 < n)
    (fits : Fits streams (.pop b n)) :
    ∃ next, serve state (.pop b n) = some (next, (expect streams (.pop b n)).2) ∧
      Represents next (expect streams (.pop b n)).1 := by
  obtain ⟨chunks, chunked, held⟩ := before.held
  have size := before.sizes b
  have small := before.small b
  by_cases short : (streams b).length < n
  · have refused : (state.buffer b).size < toInt n ∨ toInt n = 0 := by
      rcases fits with narrow | zero | large
      · rw [toInt_eq (by omega) (by omega)]
        omega
      · exact .inr zero
      · exact .inl (size ▸ large)
    refine ⟨state, ?_, ?_⟩
    · simp only [serve, lpopbuffer, if_pos refused, Option.map_some, expect, if_pos short]
      rw [size]
    · simpa only [expect, if_pos short] using before
  · have narrow : toInt n = n := toInt_eq (by omega) (by omega)
    have enough : n ≤ (chunks b).flatten.length := by
      rw [held b]
      omega
    obtain ⟨popped, taken, ⟨rest, kept, left⟩, sizes⟩ := popLstring_some chunked b n 0 positive
      (Nat.zero_le _) enough (by simpa using not_stuck_all n (chunks b))
    have remaining : (popped.buffer b).size - n = ((streams b).drop n).length := by
      rw [sizes b, size, List.length_drop]
      omega
    refine ⟨popped.setBuffer b
      { popped.buffer b with size := (popped.buffer b).size - n }, ?_, ?_⟩
    · have taken : popLstring state b n 0 = some (popped, (streams b).take n) := by
        rw [held b] at taken
        exact taken
      simp only [serve, lpopbuffer, narrow, expect, if_neg short, taken, remaining,
        Option.bind_eq_bind, Option.bind_some]
      rw [if_neg (by omega)]
      rfl
    · simp only [expect, if_neg short]
      refine before.set held b rest _ (by rw [left, held b]) (kept.resize b _) ?_ ?_ ?_
      · rw [setBuffer_buffer, Function.update_self, remaining]
      · rw [List.length_drop]
        omega
      · intro c other
        rw [setBuffer_buffer, Function.update_of_ne other, sizes c]

theorem Represents.emptied (before : Represents state streams) {next : State}
    {chunks : Nat → List (List UInt8)} (held : ∀ b, (chunks b).flatten = streams b) (b : Nat)
    (kept : Chunked next (Function.update chunks b []))
    (sizes : ∀ c, (next.buffer c).size = (state.buffer c).size) :
    Represents (next.setBuffer b { next.buffer b with size := 0 })
      (Function.update streams b []) := by
  refine before.set held b [] [] rfl (kept.resize b 0) ?_ (by simp) ?_
  · rw [setBuffer_buffer, Function.update_self]
    rfl
  · intro c other
    rw [setBuffer_buffer, Function.update_of_ne other, sizes c]

theorem Represents.serve (before : Represents state streams) (call : Call) (proper : call.Proper)
    (fits : Fits streams call) :
    ∃ next, serve state call = some (next, (expect streams call).2) ∧
      Represents next (expect streams call).1 := by
  cases call with
  | push b msg => exact before.push b msg proper fits
  | pop b n => exact before.pop b n proper fits
  | readall b =>
    obtain ⟨chunks, chunked, held⟩ := before.held
    have rounds := chunked.length_le b
    obtain ⟨next, taken, kept, sizes⟩ :=
      readLoop_some (state.made + 1) chunked b [] (by omega)
    refine ⟨_, ?_, before.emptied held b kept sizes⟩
    simp only [Buffer.serve, lreadall, taken, held b, Option.bind_eq_bind, Option.bind_some,
      Option.map_some, expect, List.nil_append]
  | clear b =>
    obtain ⟨chunks, chunked, held⟩ := before.held
    have rounds := chunked.length_le b
    obtain ⟨next, taken, kept, sizes⟩ := clearLoop_some (state.made + 1) chunked b (by omega)
    refine ⟨_, ?_, before.emptied held b kept sizes⟩
    simp only [Buffer.serve, lclearbuffer, taken, Option.bind_eq_bind, Option.bind_some,
      Option.map_some, expect]

theorem Represents.unfit (before : Represents state streams) (call : Call)
    (over_ : ¬Fits streams call) (next : State) :
    Buffer.serve state call ≠ some (next, (expect streams call).2) := by
  cases call with
  | push b msg =>
    intro taken
    obtain ⟨⟨other, size⟩, pushed, same⟩ := Option.map_eq_some_iff.mp taken
    have replied : size = ((streams b ++ msg).length : Nat) :=
      Reply.pushed.inj (congrArg Prod.snd same)
    simp only [lpushbuffer, Option.bind_eq_bind, Option.bind_eq_some_iff] at pushed
    obtain ⟨linked, -, total, added, pushed⟩ := pushed
    rw [(Prod.mk.inj (Option.some.inj pushed)).2, replied] at added
    have fits := (arith_some added).2
    rw [List.length_append] at fits
    simp only [Fits] at over_
    omega
  | pop b n =>
    simp only [Fits, not_or] at over_
    obtain ⟨wide, nonzero, there⟩ := over_
    have size := before.sizes b
    have small := before.small b
    have short : (streams b).length < n := by omega
    intro taken
    simp only [Buffer.serve, lpopbuffer, expect, if_pos short] at taken
    rw [if_neg (by omega)] at taken
    obtain ⟨⟨other, bytes, left⟩, popped, same⟩ := Option.map_eq_some_iff.mp taken
    have replied : bytes = none := (Reply.popped.inj (congrArg Prod.snd same)).1
    simp only [Option.bind_eq_bind, Option.bind_eq_some_iff] at popped
    obtain ⟨both, -, popped⟩ := popped
    have given := (Prod.mk.inj (Prod.mk.inj (Option.some.inj popped)).2).1
    rw [replied] at given
    exact Option.some_ne_none _ given
  | readall b => exact absurd trivial over_
  | clear b => exact absurd trivial over_

theorem Represents.agrees_nil (represents : Represents state streams) :
    Agrees state streams [] := by
  obtain ⟨chunks, chunked, -⟩ := represents.held
  exact ⟨state, rfl, represents.sizes, chunked.apart⟩

theorem Agrees.cons {next : State} {call : Call} {rest : List Call}
    (taken : Buffer.serve state call = some (next, (expect streams call).2)) :
    Agrees state streams (call :: rest) ↔ Agrees next (expect streams call).1 rest := by
  simp only [Agrees, serveAll, expectAll, taken, Option.bind_eq_bind, Option.bind_some]
  refine exists_congr fun final => and_congr_left fun _ => ?_
  cases serveAll next rest with
  | none => simp
  | some both => simp [Prod.ext_iff]

theorem Represents.agrees_iff (represents : Represents state streams) (calls : List Call)
    (proper : ∀ call ∈ calls, call.Proper) :
    (∀ before later, calls = before ++ later → Agrees state streams before) ↔
      Transition.Along follow Fits streams calls := by
  induction calls generalizing state streams with
  | nil =>
    refine ⟨fun _ => trivial, fun _ before later parts => ?_⟩
    obtain ⟨rfl, -⟩ := List.append_eq_nil_iff.mp parts.symm
    exact represents.agrees_nil
  | cons call rest ih =>
    have first : call.Proper := proper call List.mem_cons_self
    have others : ∀ call ∈ rest, call.Proper := fun call inside =>
      proper call (List.mem_cons_of_mem _ inside)
    simp only [Transition.Along, follow]
    by_cases fits : Fits streams call
    · obtain ⟨next, taken, after⟩ := represents.serve call first fits
      rw [← ih after others]
      constructor
      · intro all
        refine ⟨fits, fun before later parts => (Agrees.cons taken).mp ?_⟩
        exact all (call :: before) later (congrArg (call :: ·) parts)
      · rintro ⟨-, all⟩ before later parts
        cases before with
        | nil => exact represents.agrees_nil
        | cons head before =>
          obtain ⟨rfl, cut⟩ := List.cons.inj parts
          exact (Agrees.cons taken).mpr (all before later cut)
    · refine ⟨fun all => ?_, fun along => absurd along.1 fits⟩
      obtain ⟨final, ran, -⟩ := all [call] rest rfl
      simp only [serveAll, expectAll, Option.bind_eq_bind, Option.bind_some,
        Option.bind_eq_some_iff, Option.some.injEq, Prod.mk.injEq, List.cons.injEq,
        and_true] at ran
      obtain ⟨⟨next, reply⟩, taken, -, same⟩ := ran
      exact absurd (same ▸ taken) (represents.unfit call fits next)

theorem streams_iff (calls : List Call) (proper : ∀ call ∈ calls, call.Proper) :
    (∀ before later, calls = before ++ later → Agrees init (fun _ => []) before) ↔
      Transition.Along follow Fits (fun _ => []) calls :=
  init_represents.agrees_iff calls proper

theorem streams_mixed :
    (∀ before later, [Call.push 0 [1, 2], .push 1 [3], .push 0 [4], .pop 0 3, .readall 1, .clear 0] =
        before ++ later → Agrees init (fun _ => []) before) ↔
      Transition.Along follow Fits (fun _ => [])
        [.push 0 [1, 2], .push 1 [3], .push 0 [4], .pop 0 3, .readall 1, .clear 0] :=
  streams_iff _ (by decide)

theorem wide_pop_given : Call.Proper (.push 0 [7]) ∧ Call.Proper (.pop 0 (2 ^ 32 + 1)) ∧
    ((serveAll init [.push 0 [7], .pop 0 (2 ^ 32 + 1)]).map Prod.snd =
      some [.pushed 1, .popped (some [7]) 0]) ∧
    ¬Agrees init (fun _ => []) [.push 0 [7], .pop 0 (2 ^ 32 + 1)] := by
  have ran : (serveAll init [.push 0 [7], .pop 0 (2 ^ 32 + 1)]).map Prod.snd =
      some [.pushed 1, .popped (some [7]) 0] := by decide
  refine ⟨by decide, by decide, ran, ?_⟩
  rintro ⟨final, same, -⟩
  rw [same] at ran
  have replied : (expectAll (fun _ => []) [.push 0 [7], .pop 0 (2 ^ 32 + 1)]).2 =
      [.pushed 1, .popped (some [7]) 0] := Option.some.inj ran
  exact absurd replied (by decide)

end Pskynet.Buffer
