import Pskynet.Buffer.Pool

set_option autoImplicit false

namespace Pskynet.Buffer

open CInt Linked

variable {state : State} {chain : Nat → List Nat} {free : List Nat}
  {chunks : Nat → List (List UInt8)}

def Chunked (state : State) (chunks : Nat → List (List UInt8)) : Prop :=
  ∃ chain free, Stored state chain free chunks

theorem init_chunked : Chunked init fun _ => [] := by
  refine ⟨fun _ => [], [], ?_⟩
  exact
    { listed := fun _ => .nil
      last := fun _ => rfl
      pooled := .nil
      apart := fun _ _ _ inside => absurd inside List.not_mem_nil
      idle := fun _ _ inside => absurd inside List.not_mem_nil
      made := fun _ _ inside => absurd inside List.not_mem_nil
      spare := fun _ inside => absurd inside List.not_mem_nil
      holds := fun _ => .nil }

theorem Chunked.length_le (chunked : Chunked state chunks) (b : Nat) :
    (chunks b).length ≤ state.made := by
  obtain ⟨chain, free, stored⟩ := chunked
  exact stored.length_le b

theorem slice_some (block : List UInt8) (offset len : Nat) (within : offset + len ≤ block.length) :
    slice (some block) offset len = some ((block.drop offset).take len) := by
  simp only [slice]
  rw [if_pos (by omega)]
  rfl

theorem slice_negative (msg : Option (List UInt8)) (offset len : Int) (negative : len < 0) :
    slice msg offset len = none := by
  cases msg with
  | none => rfl
  | some block => exact if_neg (by omega)

def View (state : State) (node : Option Nat) (offset : Int) (parts : List (List UInt8)) : Prop :=
  ∃ nodes, Chain state.links node nodes ∧ Holds state.node offset nodes parts

theorem Chunked.view (chunked : Chunked state chunks) (b : Nat) :
    View state (state.buffer b).head (state.buffer b).offset (chunks b) := by
  obtain ⟨chain, free, stored⟩ := chunked
  exact ⟨chain b, stored.listed b, stored.holds b⟩

theorem View.empty {node : Option Nat} {offset : Int} (view : View state node offset []) :
    node = none := by
  obtain ⟨nodes, listed, holds⟩ := view
  cases holds
  cases listed
  rfl

structure Reads (state : State) (n : Nat) (offset : Int) (chunk : List UInt8) : Prop where
  bytes : (state.node n).sz - offset = chunk.length
  filled : chunk ≠ []
  reads : ∀ len ≤ chunk.length, slice (state.node n).msg offset len = some (chunk.take len)

theorem View.reads {node : Option Nat} {offset : Int} {chunk : List UInt8}
    {rest : List (List UInt8)} (view : View state node offset (chunk :: rest)) :
    ∃ n, node = some n ∧ Reads state n offset chunk ∧ View state (state.links n) 0 rest := by
  obtain ⟨nodes, listed, holds⟩ := view
  cases holds with
  | @cons n offset others block _ msg sz unread later =>
    cases listed with
    | cons tail =>
      refine ⟨n, rfl, ⟨?_, ?_, ?_⟩, others, tail, later⟩
      · rw [sz, List.length_drop]
        omega
      · exact List.ne_nil_of_length_pos (by rw [List.length_drop]; omega)
      · intro len within
        rw [List.length_drop] at within
        rw [msg]
        exact slice_some block offset len (by omega)

theorem View.advance {node : Option Nat} {offset : Int} {chunk : List UInt8}
    {rest : List (List UInt8)} (view : View state node offset (chunk :: rest)) (len : Nat)
    (less : len < chunk.length) : View state node (offset + len) (chunk.drop len :: rest) := by
  obtain ⟨nodes, listed, holds⟩ := view
  exact ⟨nodes, listed, holds.advance len less⟩

theorem Chunked.empty (chunked : Chunked state chunks) {b : Nat} (none_ : chunks b = []) :
    (state.buffer b).head = none := by
  have view := chunked.view b
  rw [none_] at view
  exact view.empty

structure Front (state : State) (b n : Nat) (chunk : List UInt8) : Prop extends
    Reads state n (state.buffer b).offset chunk where
  head : (state.buffer b).head = some n

theorem Chunked.front (chunked : Chunked state chunks) {b : Nat} {chunk : List UInt8}
    {rest : List (List UInt8)} (parts : chunks b = chunk :: rest) :
    ∃ n, Front state b n chunk := by
  have view := chunked.view b
  rw [parts] at view
  obtain ⟨n, head, reads, -⟩ := view.reads
  exact ⟨n, reads, head⟩

theorem Chunked.set (chunked : Chunked state chunks) (b : Nat) (sb : SocketBuffer)
    (parts : List (List UInt8)) (head : sb.head = (state.buffer b).head)
    (tail : sb.tail = (state.buffer b).tail)
    (holds : ∀ nodes, Holds state.node (state.buffer b).offset nodes (chunks b) →
      Holds state.node sb.offset nodes parts) :
    Chunked (state.setBuffer b sb) (Function.update chunks b parts) := by
  obtain ⟨chain, free, stored⟩ := chunked
  refine ⟨chain, free, { stored with listed := ?_, last := ?_, holds := ?_ }⟩
  · intro c
    by_cases same : c = b
    · subst same
      rw [setBuffer_buffer, Function.update_self, head]
      exact stored.listed c
    · rw [setBuffer_buffer, Function.update_of_ne same]
      exact stored.listed c
  · intro c
    by_cases same : c = b
    · subst same
      rw [setBuffer_buffer, Function.update_self, tail]
      exact stored.last c
    · rw [setBuffer_buffer, Function.update_of_ne same]
      exact stored.last c
  · intro c
    by_cases same : c = b
    · subst same
      rw [setBuffer_buffer, Function.update_self, Function.update_self]
      exact holds _ (stored.holds c)
    · rw [setBuffer_buffer, Function.update_of_ne same, Function.update_of_ne same]
      exact stored.holds c

theorem Chunked.resize (chunked : Chunked state chunks) (b : Nat) (size : Int) :
    Chunked (state.setBuffer b { state.buffer b with size }) chunks := by
  have kept := chunked.set b { state.buffer b with size } (chunks b) rfl rfl fun _ holds => holds
  rwa [Function.update_eq_self] at kept

theorem Chunked.advance (chunked : Chunked state chunks) {b : Nat} {chunk : List UInt8}
    {rest : List (List UInt8)} (parts : chunks b = chunk :: rest) (len : Nat)
    (less : len < chunk.length) :
    Chunked (state.setBuffer b
        { state.buffer b with offset := (state.buffer b).offset + len })
      (Function.update chunks b (chunk.drop len :: rest)) := by
  refine chunked.set b _ _ rfl rfl fun nodes holds => ?_
  rw [parts] at holds
  exact holds.advance len less

theorem returnFreeNode_some {b n : Nat} (head : (state.buffer b).head = some n) :
    returnFreeNode state b =
      some (((state.setBuffer b
          { state.buffer b with
            offset := 0
            head := state.links n
            tail := if state.links n = none then none else (state.buffer b).tail }).setNode n
          { msg := none, sz := 0, next := state.pool.free }).setFree (some n)) := by
  simp only [returnFreeNode, head]
  rfl

theorem Chunked.return (chunked : Chunked state chunks) {b : Nat} {chunk : List UInt8}
    {rest : List (List UInt8)} (parts : chunks b = chunk :: rest) :
    ∃ next, returnFreeNode state b = some next ∧
      Chunked next (Function.update chunks b rest) ∧ next.made = state.made ∧
      ∀ c, (next.buffer c).size = (state.buffer c).size := by
  obtain ⟨chain, free, stored⟩ := chunked
  have holds := stored.holds b
  rw [parts] at holds
  generalize nodes : chain b = list, start : (state.buffer b).offset = offset at holds
  cases holds with
  | @cons n offset others block _ msg sz unread later =>
    have head := stored.head_some nodes
    have listed := stored.listed b
    rw [nodes, head] at listed
    have once := List.nodup_cons.mp listed.nodup
    have inside : n ∈ chain b := nodes ▸ List.mem_cons_self
    refine ⟨_, returnFreeNode_some head, ?_, rfl, ?_⟩
    · refine ⟨Function.update chain b others, n :: free, ?_⟩
      have outside : ∀ c, n ∉ Function.update chain b others c := by
        intro c
        by_cases same : c = b
        · subst same
          rw [Function.update_self]
          exact once.1
        · rw [Function.update_of_ne same]
          exact fun member => same (stored.apart c b n member inside)
      have before : ∀ c m, m ∈ Function.update chain b others c → m ∈ chain c := by
        intro c m member
        by_cases same : c = b
        · subst same
          rw [Function.update_self] at member
          rw [nodes]
          exact List.mem_cons_of_mem _ member
        · rwa [Function.update_of_ne same] at member
      have tail : Chain state.links (state.links n) others := by
        cases listed with
        | cons tail => exact tail
      have links (sb : SocketBuffer) (node : Node) :
          (((state.setBuffer b sb).setNode n node).setFree (some n)).links =
            Function.update state.links n node.next := setNode_links state n node
      exact
        { listed := fun c => by
            rw [links]
            by_cases same : c = b
            · subst same
              simpa [State.setFree, State.setNode] using tail.update n _ once.1
            · simpa [State.setFree, State.setNode, same] using (stored.listed c).update n _
                fun member => same (stored.apart c b n member inside)
          last := fun c => by
            by_cases same : c = b
            · subst same
              have last := stored.last c
              rw [nodes] at last
              simp only [State.setFree, State.setNode, setBuffer_buffer, Function.update_self]
              generalize state.links n = second at tail
              cases tail with
              | nil => rfl
              | cons _ => rw [if_neg (Option.some_ne_none _), last, List.getLast?_cons_cons]
            · simpa [State.setFree, State.setNode, same] using stored.last c
          pooled := by
            rw [links]
            refine .cons ?_
            rw [Function.update_self]
            exact stored.pooled.update n _ (stored.idle b n inside)
          apart := fun c d m one two => stored.apart c d m (before c m one) (before d m two)
          idle := fun c m member later => by
            rcases List.mem_cons.mp later with rfl | later
            · exact outside c member
            · exact stored.idle c m (before c m member) later
          made := fun c m member => stored.made c m (before c m member)
          spare := fun m member => by
            rcases List.mem_cons.mp member with rfl | later
            · exact stored.made b m inside
            · exact stored.spare m later
          holds := fun c => by
            have kept : ∀ m, m ∈ Function.update chain b others c → ∀ node,
                Function.update state.node n node m = state.node m := by
              intro m member node
              refine Function.update_of_ne ?_ _ _
              rintro rfl
              exact outside c member
            by_cases same : c = b
            · subst same
              rw [Function.update_self] at kept ⊢
              simp only [State.setFree, State.setNode, setBuffer_buffer, Function.update_self]
              exact later.congr (fun m member => congrArg Node.msg (kept m member _))
                fun m member => congrArg Node.sz (kept m member _)
            · rw [Function.update_of_ne same] at kept
              simp only [State.setFree, State.setNode, setBuffer_buffer, Function.update_of_ne same]
              exact (stored.holds c).congr (fun m member => congrArg Node.msg (kept m member _))
                fun m member => congrArg Node.sz (kept m member _) }
    · intro c
      by_cases same : c = b
      · subst same
        simp [State.setFree, State.setNode]
      · simp [State.setFree, State.setNode, same]

theorem Chunked.push (chunked : Chunked state chunks) (b : Nat) {msg : List UInt8}
    (filled : msg ≠ []) (narrow : toInt msg.length = msg.length)
    (fits : arith ((state.buffer b).size + msg.length) = some ((state.buffer b).size + msg.length)) :
    ∃ next, lpushbuffer state b msg = some (next, (state.buffer b).size + msg.length) ∧
      Chunked next (Function.update chunks b (chunks b ++ [msg])) ∧
      (next.buffer b).size = (state.buffer b).size + msg.length ∧
      ∀ c, c ≠ b → (next.buffer c).size = (state.buffer c).size := by
  obtain ⟨chain, free, stored⟩ := chunked
  obtain ⟨rest, kept, outside, alone, made, buffer⟩ := stored.freeNode
  have settled := kept.congr (((freeNode state).1.setFree
      ((freeNode state).1.node (freeNode state).2).next).setNode (freeNode state).2
        { msg := some msg, sz := msg.length, next := none }) rfl rfl ?_ ?_ le_rfl
  · obtain ⟨linked, taken, held, sizes⟩ := settled.link b msg outside alone made
      (Function.update_self ..) filled
    have size : (linked.buffer b).size = (state.buffer b).size := by
      rw [sizes b]
      exact congrArg (fun buffer : Nat → SocketBuffer => (buffer b).size) buffer
    refine ⟨linked.setBuffer b
      { linked.buffer b with size := (state.buffer b).size + msg.length }, ?_, ?_, ?_, ?_⟩
    · simp only [lpushbuffer, narrow, taken, Option.bind_eq_bind, Option.bind_some, size, fits]
    · exact Chunked.resize ⟨_, _, held⟩ b _
    · rw [setBuffer_buffer, Function.update_self]
    · intro c apart
      rw [setBuffer_buffer, Function.update_of_ne apart, sizes c]
      exact congrArg (fun buffer : Nat → SocketBuffer => (buffer c).size) buffer
  · intro c m member
    refine Function.update_of_ne ?_ _ _
    rintro rfl
    exact outside c member
  · intro m member
    refine Function.update_of_ne ?_ _ _
    rintro rfl
    exact alone member

end Pskynet.Buffer
