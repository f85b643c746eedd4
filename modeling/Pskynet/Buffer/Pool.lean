import Pskynet.Buffer.Node

set_option autoImplicit false

namespace Pskynet.Buffer

open Linked

def State.links (state : State) (n : Nat) : Option Nat := (state.node n).next

inductive Holds (node : Nat → Node) : Int → List Nat → List (List UInt8) → Prop where
  | nil : Holds node 0 [] []
  | cons {n offset : Nat} {rest : List Nat} {block : List UInt8} {chunks : List (List UInt8)}
      (msg : (node n).msg = some block) (sz : (node n).sz = block.length)
      (unread : offset < block.length) (later : Holds node 0 rest chunks) :
      Holds node offset (n :: rest) (block.drop offset :: chunks)

theorem Holds.congr {node other : Nat → Node} {offset : Int} {nodes : List Nat}
    {chunks : List (List UInt8)} (holds : Holds node offset nodes chunks)
    (msg : ∀ n ∈ nodes, (other n).msg = (node n).msg)
    (sz : ∀ n ∈ nodes, (other n).sz = (node n).sz) : Holds other offset nodes chunks := by
  induction holds with
  | nil => exact .nil
  | @cons n offset rest block chunks filled length unread _ ih =>
    refine .cons ?_ ?_ unread ?_
    · rw [msg n List.mem_cons_self, filled]
    · rw [sz n List.mem_cons_self, length]
    · exact ih (fun n inside => msg n (List.mem_cons_of_mem _ inside))
        (fun n inside => sz n (List.mem_cons_of_mem _ inside))

theorem Holds.append {node : Nat → Node} {offset : Int} {nodes : List Nat}
    {chunks : List (List UInt8)} (holds : Holds node offset nodes chunks) {n : Nat}
    {block : List UInt8} (msg : (node n).msg = some block) (sz : (node n).sz = block.length)
    (filled : block ≠ []) : Holds node offset (nodes ++ [n]) (chunks ++ [block]) := by
  induction holds with
  | nil =>
    exact @Holds.cons _ n 0 [] block [] msg sz (List.length_pos_iff.mpr filled) .nil
  | cons first length unread _ ih => exact .cons first length unread ih

theorem Holds.advance {node : Nat → Node} {offset : Int} {nodes : List Nat} {chunk : List UInt8}
    {rest : List (List UInt8)} (holds : Holds node offset nodes (chunk :: rest)) (len : Nat)
    (less : len < chunk.length) : Holds node (offset + len) nodes (chunk.drop len :: rest) := by
  cases holds with
  | @cons n offset _ block _ msg sz unread later =>
    rw [List.length_drop] at less
    rw [List.drop_drop]
    exact @Holds.cons _ n (offset + len) _ block _ msg sz (by omega) later

theorem Holds.length {node : Nat → Node} {offset : Int} {nodes : List Nat}
    {chunks : List (List UInt8)} (holds : Holds node offset nodes chunks) :
    chunks.length = nodes.length := by
  induction holds with
  | nil => rfl
  | cons _ _ _ _ ih => rw [List.length_cons, List.length_cons, ih]

theorem Holds.filled {node : Nat → Node} {offset : Int} {nodes : List Nat}
    {chunks : List (List UInt8)} (holds : Holds node offset nodes chunks) :
    ∀ chunk ∈ chunks, chunk ≠ [] := by
  induction holds with
  | nil => simp
  | @cons n offset rest block chunks _ _ unread _ ih =>
    rw [List.forall_mem_cons]
    exact ⟨List.ne_nil_of_length_pos (by rw [List.length_drop]; omega), ih⟩

structure Stored (state : State) (chain : Nat → List Nat) (free : List Nat)
    (chunks : Nat → List (List UInt8)) : Prop where
  listed : ∀ b, Chain state.links (state.buffer b).head (chain b)
  last : ∀ b, (state.buffer b).tail = (chain b).getLast?
  pooled : Chain state.links state.pool.free free
  apart : ∀ b c n, n ∈ chain b → n ∈ chain c → b = c
  idle : ∀ b n, n ∈ chain b → n ∉ free
  made : ∀ b n, n ∈ chain b → n < state.made
  spare : ∀ n ∈ free, n < state.made
  holds : ∀ b, Holds state.node (state.buffer b).offset (chain b) (chunks b)

variable {state : State} {chain : Nat → List Nat} {free : List Nat}
  {chunks : Nat → List (List UInt8)}

theorem Stored.head_some (stored : Stored state chain free chunks) {b n : Nat} {rest : List Nat}
    (nodes : chain b = n :: rest) : (state.buffer b).head = some n := by
  have listed := stored.listed b
  rw [nodes] at listed
  generalize (state.buffer b).head = head at listed
  cases listed
  rfl

theorem Stored.head_none (stored : Stored state chain free chunks) {b : Nat}
    (nodes : chain b = []) : (state.buffer b).head = none := by
  have listed := stored.listed b
  rw [nodes] at listed
  generalize (state.buffer b).head = head at listed
  cases listed
  rfl

theorem Stored.length_le (stored : Stored state chain free chunks) (b : Nat) :
    (chunks b).length ≤ state.made := by
  rw [(stored.holds b).length]
  have inside : chain b ⊆ List.range state.made := fun n member =>
    List.mem_range.mpr (stored.made b n member)
  simpa using ((stored.listed b).nodup.subperm inside).length_le

theorem range_chain (start made sz : Nat) (node : Nat → Node) (count : Nat)
    (within : made ≤ start) (ends : start + count = made + sz) :
    Chain (fun n =>
      (if made ≤ n ∧ n < made + sz then
        ({ msg := none, sz := 0
           next := if n + 1 = made + sz then none else some (n + 1) } : Node)
      else node n).next)
      (if start = made + sz then none else some start) (List.range' start count) := by
  induction count generalizing start with
  | zero =>
    rw [if_pos (by omega)]
    exact .nil
  | succ count ih =>
    rw [if_neg (by omega), List.range'_succ]
    refine .cons ?_
    have later := ih (start + 1) (by omega) (by omega)
    simpa only [if_pos (show made ≤ start ∧ start < made + sz by omega)] using later

theorem Stored.congr (stored : Stored state chain free chunks) (other : State)
    (buffers : other.buffer = state.buffer) (head : other.pool.free = state.pool.free)
    (nodes : ∀ b n, n ∈ chain b → other.node n = state.node n)
    (spare : ∀ n ∈ free, other.node n = state.node n) (more : state.made ≤ other.made) :
    Stored other chain free chunks where
  listed b := by
    rw [buffers]
    exact (stored.listed b).congr fun n inside => congrArg Node.next (nodes b n inside)
  last := by
    rw [buffers]
    exact stored.last
  pooled := by
    rw [head]
    exact stored.pooled.congr fun n inside => congrArg Node.next (spare n inside)
  apart := stored.apart
  idle := stored.idle
  made b n inside := Nat.lt_of_lt_of_le (stored.made b n inside) more
  spare n inside := Nat.lt_of_lt_of_le (stored.spare n inside) more
  holds b := by
    rw [buffers]
    exact (stored.holds b).congr (fun n inside => congrArg Node.msg (nodes b n inside))
      fun n inside => congrArg Node.sz (nodes b n inside)

theorem Stored.freeNode (stored : Stored state chain free chunks) :
    ∃ rest, Stored ((freeNode state).1.setFree
        ((freeNode state).1.node (freeNode state).2).next) chain rest chunks ∧
      (∀ b, (freeNode state).2 ∉ chain b) ∧ (freeNode state).2 ∉ rest ∧
      (freeNode state).2 < (freeNode state).1.made ∧
      (freeNode state).1.buffer = state.buffer := by
  cases head : state.pool.free with
  | some node =>
    have taken : Buffer.freeNode state = (state, node) := by simp only [Buffer.freeNode, head]
    simp only [taken]
    have pooled := stored.pooled
    rw [head] at pooled
    cases pooled with
    | @cons _ rest tail =>
      have once := (Chain.cons tail).nodup
      refine ⟨rest, ?_, ?_, (List.nodup_cons.mp once).1, stored.spare node List.mem_cons_self, ?_⟩
      · exact { stored with
          pooled := tail
          idle := fun b n inside later =>
            stored.idle b n inside (List.mem_cons_of_mem _ later)
          spare := fun n inside => stored.spare n (List.mem_cons_of_mem _ inside) }
      · exact fun b inside => stored.idle b node inside List.mem_cons_self
      · trivial
  | none =>
    have shifted (n : Nat) : 0 < 8 <<< n := by
      rw [Nat.shiftLeft_eq]
      exact Nat.mul_pos (Nat.succ_pos 7) (Nat.two_pow_pos n)
    obtain ⟨size, rawlen, large, taken⟩ : ∃ size rawlen : Nat, 0 < size ∧ Buffer.freeNode state =
        ({ lnewpool state size with pool := { (lnewpool state size).pool with rawlen } },
          state.made) := by
      refine ⟨_, _, ?_, by simp only [Buffer.freeNode, head]; rfl⟩
      split_ifs <;> exact shifted _
    simp only [taken]
    have linked := range_chain state.made state.made size state.node size le_rfl rfl
    rw [if_neg (by omega)] at linked
    obtain ⟨count, rfl⟩ : ∃ count, size = count + 1 := ⟨size - 1, by omega⟩
    rw [List.range'_succ] at linked
    cases linked with
    | cons tail =>
      refine ⟨List.range' (state.made + 1) count, ?_, ?_, ?_, ?_, rfl⟩
      · have kept : Stored (lnewpool state (count + 1)) chain free chunks := by
          refine stored.congr _ rfl rfl ?_ ?_ (Nat.le_add_right _ _)
          · intro b n inside
            have old := stored.made b n inside
            exact if_neg (by omega)
          · intro n inside
            have old := stored.spare n inside
            exact if_neg (by omega)
        exact { kept with
          pooled := tail
          idle := fun b n inside later => by
            have old := stored.made b n inside
            have new := List.mem_range'_1.mp later
            omega
          spare := fun n inside => by
            have new := List.mem_range'_1.mp inside
            change n < state.made + (count + 1)
            omega }
      · intro b inside
        have old := stored.made b _ inside
        omega
      · intro inside
        have new := List.mem_range'_1.mp inside
        omega
      · change state.made < state.made + (count + 1)
        omega

@[simp] theorem setBuffer_buffer (state : State) (b : Nat) (sb : SocketBuffer) :
    (state.setBuffer b sb).buffer = Function.update state.buffer b sb := rfl

@[simp] theorem setBuffer_made (state : State) (b : Nat) (sb : SocketBuffer) :
    (state.setBuffer b sb).made = state.made := rfl

theorem setNode_links (state : State) (n : Nat) (node : Node) :
    (state.setNode n node).links = Function.update state.links n node.next := by
  funext m
  by_cases same : m = n
  · subst same
    simp [State.links, State.setNode]
  · simp [State.links, State.setNode, same]

theorem Stored.extend (stored : Stored state chain free chunks) {next : State} {b n : Nat}
    {block : List UInt8} (outside : ∀ c, n ∉ chain c) (alone : n ∉ free) (made : n < state.made)
    (msg : (state.node n).msg = some block) (sz : (state.node n).sz = block.length)
    (filled : block ≠ []) (pool : next.pool = state.pool) (count : next.made = state.made)
    (listed : Chain next.links (next.buffer b).head (chain b ++ [n]))
    (last : (next.buffer b).tail = some n)
    (offset : (next.buffer b).offset = (state.buffer b).offset)
    (others : ∀ c, c ≠ b → next.buffer c = state.buffer c)
    (links : ∀ m, m ∉ chain b → next.links m = state.links m)
    (data : ∀ m, (next.node m).msg = (state.node m).msg ∧ (next.node m).sz = (state.node m).sz) :
    Stored next (Function.update chain b (chain b ++ [n])) free
      (Function.update chunks b (chunks b ++ [block])) := by
  have before : ∀ c m, m ∈ Function.update chain b (chain b ++ [n]) c →
      m ∈ chain c ∨ c = b ∧ m = n := by
    intro c m member
    by_cases same : c = b
    · subst same
      rw [Function.update_self, List.mem_append, List.mem_singleton] at member
      exact member.imp_right fun new => ⟨rfl, new⟩
    · rw [Function.update_of_ne same] at member
      exact .inl member
  have moved (c : Nat) {nodes : List Nat} {parts : List (List UInt8)}
      (holds : Holds state.node (state.buffer c).offset nodes parts) :
      Holds next.node (state.buffer c).offset nodes parts :=
    holds.congr (fun m _ => (data m).1) fun m _ => (data m).2
  constructor
  case listed =>
    intro c
    by_cases same : c = b
    · rw [same, Function.update_self]
      exact listed
    · rw [Function.update_of_ne same, others c same]
      refine (stored.listed c).congr fun m member => links m ?_
      exact fun other => same (stored.apart c b m member other)
  case last =>
    intro c
    by_cases same : c = b
    · rw [same, Function.update_self, last, List.getLast?_append]
      rfl
    · rw [Function.update_of_ne same, others c same]
      exact stored.last c
  case pooled =>
    rw [pool]
    refine stored.pooled.congr fun m member => links m ?_
    exact fun other => stored.idle b m other member
  case apart =>
    intro c d m one two
    rcases before c m one with old | ⟨home, new⟩
    · rcases before d m two with other | ⟨_, new⟩
      · exact stored.apart c d m old other
      · exact absurd (new ▸ old) (outside c)
    · rcases before d m two with other | ⟨same, _⟩
      · exact absurd (new ▸ other) (outside d)
      · rw [home, same]
  case idle =>
    intro c m member
    rcases before c m member with old | ⟨_, new⟩
    · exact stored.idle c m old
    · rw [new]
      exact alone
  case made =>
    intro c m member
    rw [count]
    rcases before c m member with old | ⟨_, new⟩
    · exact stored.made c m old
    · rw [new]
      exact made
  case spare =>
    rw [count]
    exact stored.spare
  case holds =>
    intro c
    by_cases same : c = b
    · rw [same, Function.update_self, Function.update_self, offset]
      exact moved b ((stored.holds b).append msg sz filled)
    · rw [Function.update_of_ne same, Function.update_of_ne same, others c same]
      exact moved c (stored.holds c)

theorem Stored.link (stored : Stored state chain free chunks) (b : Nat) {n : Nat}
    (block : List UInt8)
    (outside : ∀ c, n ∉ chain c) (alone : n ∉ free) (made : n < state.made)
    (node : state.node n = { msg := some block, sz := block.length, next := none })
    (filled : block ≠ []) :
    ∃ next, linkNode state b n = some next ∧
      Stored next (Function.update chain b (chain b ++ [n])) free
        (Function.update chunks b (chunks b ++ [block])) ∧
      ∀ c, (next.buffer c).size = (state.buffer c).size := by
  have msg : (state.node n).msg = some block := by rw [node]
  have sz : (state.node n).sz = block.length := by rw [node]
  have alone_ : state.links n = none := congrArg Node.next node
  have other (sb : SocketBuffer) (c : Nat) (apart : c ≠ b) :
      Function.update state.buffer b sb c = state.buffer c := Function.update_of_ne apart _ _
  rcases List.eq_nil_or_concat (chain b) with nodes | ⟨front, last, nodes⟩
  · have head := stored.head_none nodes
    have tail := stored.last b
    rw [nodes, List.getLast?_nil] at tail
    have linked : linkNode state b n = some (state.setBuffer b
        { state.buffer b with head := some n, tail := some n }) := by
      simp only [linkNode, head, tail]
    refine ⟨_, linked, ?_, ?_⟩
    · refine stored.extend outside alone made msg sz filled rfl rfl ?_ ?_ ?_ (other _)
        (fun _ _ => rfl) fun _ => ⟨rfl, rfl⟩
      · rw [setBuffer_buffer, Function.update_self, nodes]
        refine .cons ?_
        change Chain _ (state.links n) []
        rw [alone_]
        exact .nil
      · simp
      · simp
    · intro c
      by_cases same : c = b
      · simp [same]
      · simp [same]
  · have tail := stored.last b
    rw [nodes, List.concat_eq_append, List.getLast?_concat] at tail
    obtain ⟨first, rest, parts⟩ : ∃ first rest, chain b = first :: rest := by
      cases cut : chain b with
      | nil => simp [cut] at nodes
      | cons first rest => exact ⟨first, rest, rfl⟩
    have head := stored.head_some parts
    have inside : last ∈ chain b := by simp [nodes]
    have linked : linkNode state b n = some
        ((state.setNode last { state.node last with next := some n }).setBuffer b
          { state.buffer b with tail := some n }) := by
      simp only [linkNode, head, tail]
    refine ⟨_, linked, ?_, ?_⟩
    · have links : ((state.setNode last { state.node last with next := some n }).setBuffer b
          { state.buffer b with tail := some n }).links =
            Function.update state.links last (some n) := setNode_links state last _
      refine stored.extend outside alone made msg sz filled rfl rfl ?_ ?_ ?_ (other _) ?_ ?_
      · rw [links, setBuffer_buffer, Function.update_self]
        refine (stored.listed b).append ?_ (outside b) alone_
        rw [nodes, List.concat_eq_append, List.getLast?_concat]
      · simp
      · simp
      · intro m member
        rw [links]
        refine Function.update_of_ne ?_ _ _
        rintro rfl
        exact member inside
      · intro m
        by_cases same : m = last
        · subst same
          simp [State.setBuffer, State.setNode]
        · simp [State.setBuffer, State.setNode, same]
    · intro c
      by_cases same : c = b
      · simp [same, State.setNode]
      · simp [same, State.setNode]

end Pskynet.Buffer
