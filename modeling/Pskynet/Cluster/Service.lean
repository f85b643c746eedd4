import Pskynet.Cluster.Packet
import Pskynet.Lua.Number
import Pskynet.Shared.Mailbox
import Pskynet.Shared.Transition

set_option autoImplicit false

namespace Pskynet.Cluster

inductive Word where
  | text (bytes : List UInt8)
  | integer (n : Int64)
  deriving DecidableEq

def Word.string : Word → List UInt8
  | .text bytes => bytes
  | .integer n => Lua.intText n

def fullname (node name : Word) : List UInt8 := node.string ++ 46 :: name.string

-- `string.match(address, "([^:]+):(.*)$")`
def hostPort (address : List UInt8) : Option (List UInt8 × List UInt8) :=
  let host := address.dropWhile (· = 58)
  match host.dropWhile (· ≠ 58) with
  | [] => none
  | _ :: port => some (host.takeWhile (· ≠ 58), port)

structure Request where
  source : Nat
  node : Word
  addr : Address
  msg : List UInt8

structure Channel where
  node : Word
  host : List UInt8
  port : Int64

-- The tables of the service, and its coroutines that wait: those of `connecting` in `open_channel`
-- for their channel, those of `launching` in `newservice`. A channel is known by its place in
-- `channels`, a proxy by its place in `services` and a `proxy` command by its place in `asked`.
structure Clusterd where
  nodeAddress : Word → Option (List UInt8)
  nodeSession : Word → Option Int32
  nodeChannel : Word → Option Nat
  channels : List Channel
  connecting : List (Nat × Request)
  stored : List (Word × Nat)
  failed : List Word
  sent : List (Nat × Int32 × List UInt8)
  refused : List Nat
  proxy : List UInt8 → Option Nat
  asked : List (Word × Word)
  launching : List (Nat × Word × Word)
  services : List (Word × Word)
  replies : List (Nat × Nat)
  unserved : List Nat

-- How `newservice` ends: with the handle, with nothing when the service exits before it is
-- initialised, or with an error.
inductive Launched where
  | started
  | exited
  | raised

inductive Action where
  | reload (config : List (Word × Option (List UInt8)))
  | req (r : Request)
  | connected (c : Nat) (ok : Bool)
  | proxy (node name : Word)
  | launched (n : Nat) (result : Launched)

namespace Clusterd

def start : Clusterd where
  nodeAddress := fun _ => none
  nodeSession := fun _ => none
  nodeChannel := fun _ => none
  channels := []
  connecting := []
  stored := []
  failed := []
  sent := []
  refused := []
  proxy := fun _ => none
  asked := []
  launching := []
  services := []
  replies := []
  unserved := []

def reload (s : Clusterd) (config : List (Word × Option (List UInt8))) : Clusterd :=
  { s with
    nodeAddress := config.foldl (fun address (node, value) => Function.update address node value)
      s.nodeAddress }

def refuse (s : Clusterd) (r : Request) : Clusterd := { s with refused := s.refused ++ [r.source] }

-- The rest of `send_request`, with the channel. Past the end of the buffer nothing is defined.
def send (s : Clusterd) (c : Nat) (r : Request) : Option Clusterd :=
  match s.nodeSession r.node with
  | none => some (s.refuse r)
  | some session =>
      match lpackrequest r.addr session r.msg with
      | .error (.raised _) => some (s.refuse r)
      | .error .overflow => none
      | .ok (request, next) =>
          some { s with
            nodeSession := Function.update s.nodeSession r.node (some next)
            sent := s.sent ++ [(c, session, request)] }

variable (tonumber : List UInt8 → Option Int64)

-- `string.match` raises without an address, and `sc.channel` without a host or a port.
def hostOf (s : Clusterd) (node : Word) : Option (List UInt8 × Int64) :=
  ((s.nodeAddress node).bind hostPort).bind fun (host, port) =>
    (tonumber port).map fun port => (host, port)

-- `send_request`, until `open_channel` yields when the node has no channel.
def req (s : Clusterd) (r : Request) : Option Clusterd :=
  match s.nodeChannel r.node with
  | some c => s.send c r
  | none =>
      match s.hostOf tonumber r.node with
      | none => some (s.refuse r)
      | some (host, port) =>
          some { s with
            channels := s.channels ++ [⟨r.node, host, port⟩]
            connecting := s.connecting ++ [(s.channels.length, r)] }

-- `open_channel` after `c:connect`, and what follows in `send_request`.
def connected (s : Clusterd) (c : Nat) (r : Request) (ok : Bool) : Option Clusterd :=
  if ok then
    send { s with
      nodeChannel := Function.update s.nodeChannel r.node (some c)
      nodeSession := Function.update s.nodeSession r.node (some 1)
      stored := s.stored ++ [(r.node, c)] } c r
  else some (refuse { s with failed := s.failed ++ [r.node] } r)

-- `command.proxy`, until `newservice` yields when the table has no proxy.
def askProxy (s : Clusterd) (node name : Word) : Clusterd :=
  let t := { s with asked := s.asked ++ [(node, name)] }
  match s.proxy (fullname node name) with
  | some handle => { t with replies := s.replies ++ [(s.asked.length, handle)] }
  | none => { t with launching := s.launching ++ [(s.asked.length, node, name)] }

def launched (s : Clusterd) (n : Nat) (node name : Word) : Launched → Clusterd
  | .started => { s with
      services := s.services ++ [(node, name)]
      proxy := Function.update s.proxy (fullname node name) (some s.services.length)
      replies := s.replies ++ [(n, s.services.length)] }
  | .exited => { s with
      proxy := Function.update s.proxy (fullname node name) none
      unserved := s.unserved ++ [n] }
  | .raised => { s with unserved := s.unserved ++ [n] }

def step (s : Clusterd) : Action → Option Clusterd
  | .reload config => some (s.reload config)
  | .req r => s.req tonumber r
  | .connected c ok =>
      (Mailbox.take c s.connecting).bind fun (r, rest) =>
        connected { s with connecting := rest } c r ok
  | .proxy node name => some (s.askProxy node name)
  | .launched n result =>
      (Mailbox.take n s.launching).map fun ((node, name), rest) =>
        launched { s with launching := rest } n node name result

-- A request opens no channel while one is being opened for its node. A command `proxy` launches
-- nothing while a proxy with its full name is being launched, and the one in the table is its own.
def Calm (s : Clusterd) : Action → Prop
  | .req r => s.nodeChannel r.node = none → ∀ waiting ∈ s.connecting, waiting.2.node ≠ r.node
  | .proxy node name =>
      match s.proxy (fullname node name) with
      | some handle => s.services[handle]? = some (node, name)
      | none => ∀ waiting ∈ s.launching, fullname waiting.2.1 waiting.2.2 ≠ fullname node name
  | _ => True

instance (s : Clusterd) (action : Action) : Decidable (Calm s action) :=
  match action with
  | .req r => inferInstanceAs (Decidable (s.nodeChannel r.node = none → _))
  | .proxy node name =>
      match found : s.proxy (fullname node name) with
      | some handle =>
          decidable_of_iff (s.services[handle]? = some (node, name)) (by simp only [Calm, found])
      | none =>
          decidable_of_iff (∀ waiting ∈ s.launching,
            fullname waiting.2.1 waiting.2.2 ≠ fullname node name) (by simp only [Calm, found])
  | .reload _ | .connected _ _ | .launched _ _ => .isTrue trivial

def nodes (s : Clusterd) : List Word :=
  s.stored.map Prod.fst ++ s.connecting.map fun waiting => waiting.2.node

structure Single (s : Clusterd) : Prop where
  opened : s.nodes.Nodup
  table : ∀ node c, s.nodeChannel node = some c ↔ (node, c) ∈ s.stored
  created : ∀ node, s.channels.countP (·.node = node) = s.nodes.count node + s.failed.count node
  apart : (s.launching.map fun waiting => fullname waiting.2.1 waiting.2.2).Nodup
  absent : ∀ waiting ∈ s.launching, s.proxy (fullname waiting.2.1 waiting.2.2) = none
  proxied : ∀ h node name, s.services[h]? = some (node, name) →
    s.proxy (fullname node name) = some h
  waits : ∀ n pair, (n, pair) ∈ s.launching → s.asked[n]? = some pair
  answered : ∀ n h, (n, h) ∈ s.replies → ∃ pair, s.asked[n]? = some pair ∧ s.services[h]? = some pair
  accounted : ∀ n, n < s.asked.length →
    n ∈ s.replies.map Prod.fst ∨ n ∈ s.launching.map Prod.fst ∨ n ∈ s.unserved

variable {s t : Clusterd} {r : Request} {c n : Nat} {node name : Word}

theorem start_single : Single start where
  opened := List.nodup_nil
  table := by simp [start]
  created := by simp [start, nodes]
  apart := List.nodup_nil
  absent := by simp [start]
  proxied := by simp [start]
  waits := by simp [start]
  answered := by simp [start]
  accounted := by simp [start]

section Channels

theorem send_eq (taken : s.send c r = some t) : ∃ nodeSession sent refused,
    t = { s with nodeSession := nodeSession, sent := sent, refused := refused } := by
  unfold send at taken
  cases known : s.nodeSession r.node with
  | none =>
    rw [known] at taken
    cases taken
    exact ⟨_, _, _, rfl⟩
  | some session =>
    simp only [known] at taken
    split at taken <;> cases taken <;> exact ⟨_, _, _, rfl⟩

theorem Single.send (single : Single s) (taken : s.send c r = some t) : Single t := by
  obtain ⟨nodeSession, sent, refused, same⟩ := send_eq taken
  rw [same]
  exact ⟨single.opened, single.table, single.created, single.apart, single.absent, single.proxied,
    single.waits, single.answered, single.accounted⟩

theorem Single.refuse (single : Single s) (r : Request) : Single (s.refuse r) :=
  ⟨single.opened, single.table, single.created, single.apart, single.absent, single.proxied,
    single.waits, single.answered, single.accounted⟩

theorem Single.absent_node (single : Single s) (absent : s.nodeChannel node = none)
    (calm : ∀ waiting ∈ s.connecting, waiting.2.node ≠ node) : node ∉ s.nodes := by
  intro inside
  rcases List.mem_append.mp inside with stored | connecting
  · obtain ⟨⟨_, c⟩, there, rfl⟩ := List.mem_map.mp stored
    rw [(single.table _ c).mpr there] at absent
    cases absent
  · obtain ⟨waiting, there, same⟩ := List.mem_map.mp connecting
    exact calm waiting there same

theorem Single.req {tonumber : List UInt8 → Option Int64} (single : Single s)
    (calm : Calm s (.req r)) (taken : s.req tonumber r = some t) : Single t := by
  unfold Clusterd.req at taken
  cases channel : s.nodeChannel r.node with
  | some c =>
    rw [channel] at taken
    exact single.send taken
  | none =>
    rw [channel] at taken
    cases host : s.hostOf tonumber r.node with
    | none =>
      rw [host] at taken
      cases taken
      exact single.refuse r
    | some found =>
      rw [host] at taken
      cases taken
      have fresh := single.absent_node channel (calm channel)
      have more (channels : List Channel) (waiting : Nat × Request) :
          nodes { s with channels := channels, connecting := s.connecting ++ [waiting] } =
            s.nodes ++ [waiting.2.node] := by
        simp [nodes]
      refine ⟨?_, single.table, ?_, single.apart, single.absent, single.proxied, single.waits,
        single.answered, single.accounted⟩
      · rw [more]
        exact List.nodup_append.mpr ⟨single.opened, List.nodup_singleton _, by
          rintro a inside b here rfl
          exact fresh (List.mem_singleton.mp here ▸ inside)⟩
      · intro node
        rw [more, List.countP_append, List.count_append, single.created node]
        simp only [List.countP_singleton, List.count_singleton, beq_iff_eq, decide_eq_true_eq]
        omega

theorem taken_nodes {rest : List (Nat × Request)}
    (taken : Mailbox.take c s.connecting = some (r, rest)) :
    s.nodes.Perm (r.node :: (s.stored.map Prod.fst ++ rest.map fun waiting => waiting.2.node)) := by
  have moved := (Mailbox.take_perm taken).map fun waiting => waiting.2.node
  exact (moved.append_left _).trans List.perm_middle

theorem Single.connected (single : Single s) {rest : List (Nat × Request)} {ok : Bool}
    (mail : Mailbox.take c s.connecting = some (r, rest))
    (taken : connected { s with connecting := rest } c r ok = some t) : Single t := by
  have perm := taken_nodes mail
  obtain ⟨fresh, others⟩ := List.nodup_cons.mp (perm.nodup single.opened)
  unfold Clusterd.connected at taken
  cases ok with
  | false =>
    cases taken
    refine Single.refuse ?_ r
    refine ⟨others, single.table, ?_, single.apart, single.absent, single.proxied, single.waits,
      single.answered, single.accounted⟩
    intro node
    have before := single.created node
    rw [perm.count_eq, List.count_cons] at before
    rw [before]
    change _ = List.count node (s.stored.map Prod.fst ++ rest.map fun waiting => waiting.2.node) +
      List.count node (s.failed ++ [r.node])
    have last : (s.failed ++ [r.node]).count node =
        s.failed.count node + if r.node == node then 1 else 0 := by
      rw [List.count_append, List.count_singleton]
    rw [last]
    omega
  | true =>
    refine Single.send ?_ taken
    have after : (s.stored.map Prod.fst ++ [r.node] ++ rest.map fun waiting => waiting.2.node).Perm
        s.nodes := by
      rw [List.append_assoc]
      exact List.perm_middle.trans perm.symm
    refine ⟨?_, ?_, ?_, single.apart, single.absent, single.proxied, single.waits, single.answered,
      single.accounted⟩
    · simp only [nodes, List.map_append, List.map_singleton]
      exact after.symm.nodup single.opened
    · intro node d
      by_cases here : node = r.node
      · subst here
        have never : (r.node, d) ∉ s.stored := by
          intro stored
          exact fresh (List.mem_append_left _ (List.mem_map_of_mem stored))
        simp [never, eq_comm]
      · simp [single.table, here]
    · intro node
      simp only [nodes, List.map_append, List.map_singleton]
      rw [after.count_eq]
      exact single.created node

end Channels

section Proxies

theorem Single.askProxy (single : Single s) (calm : Calm s (.proxy node name)) :
    Single (s.askProxy node name) := by
  have longer {n : Nat} {pair : Word × Word} (found : s.asked[n]? = some pair) :
      (s.asked ++ [(node, name)])[n]? = some pair := by
    rw [List.getElem?_append_left (List.getElem?_eq_some_iff.mp found).1]
    exact found
  have last : (s.asked ++ [(node, name)])[s.asked.length]? = some (node, name) :=
    List.getElem?_concat_length
  unfold Calm at calm
  unfold Clusterd.askProxy
  cases found : s.proxy (fullname node name) with
  | some handle =>
    simp only [found] at calm ⊢
    refine ⟨single.opened, single.table, single.created, single.apart, single.absent, single.proxied,
      ?_, ?_, ?_⟩
    · intro n pair inside
      exact longer (single.waits n pair inside)
    · intro n h inside
      rcases List.mem_append.mp inside with old | new_
      · obtain ⟨pair, command, served⟩ := single.answered n h old
        exact ⟨pair, longer command, served⟩
      · cases List.mem_singleton.mp new_
        exact ⟨_, last, calm⟩
    · intro n small
      rw [List.length_append, List.length_singleton] at small
      rw [List.map_append, List.mem_append]
      rcases Nat.lt_succ_iff_lt_or_eq.mp small with before | here
      · rcases single.accounted n before with replied | rest
        · exact .inl (.inl replied)
        · exact .inr rest
      · exact .inl (.inr (List.mem_singleton.mpr here))
  | none =>
    simp only [found] at calm ⊢
    refine ⟨single.opened, single.table, single.created, ?_, ?_, single.proxied, ?_, ?_, ?_⟩
    · rw [List.map_append, List.map_singleton]
      refine List.nodup_append.mpr ⟨single.apart, List.nodup_singleton _, ?_⟩
      rintro a inside b here rfl
      obtain ⟨waiting, there, same⟩ := List.mem_map.mp inside
      exact calm waiting there (same.trans (List.mem_singleton.mp here))
    · intro waiting inside
      rcases List.mem_append.mp inside with old | new_
      · exact single.absent waiting old
      · cases List.mem_singleton.mp new_
        exact found
    · intro n pair inside
      rcases List.mem_append.mp inside with old | new_
      · exact longer (single.waits n pair old)
      · cases List.mem_singleton.mp new_
        exact last
    · intro n h inside
      obtain ⟨pair, command, served⟩ := single.answered n h inside
      exact ⟨pair, longer command, served⟩
    · intro n small
      rw [List.length_append, List.length_singleton] at small
      rw [List.map_append, List.mem_append]
      rcases Nat.lt_succ_iff_lt_or_eq.mp small with before | here
      · rcases single.accounted n before with replied | waits | unserved
        · exact .inl replied
        · exact .inr (.inl (.inl waits))
        · exact .inr (.inr unserved)
      · exact .inr (.inl (.inr (List.mem_singleton.mpr here)))

theorem Single.ends (single : Single s) {rest : List (Nat × Word × Word)}
    (mail : Mailbox.take n s.launching = some ((node, name), rest)) :
    s.asked[n]? = some (node, name) ∧ s.proxy (fullname node name) = none ∧
      (rest.map fun waiting => fullname waiting.2.1 waiting.2.2).Nodup ∧
        (∀ waiting ∈ rest, fullname waiting.2.1 waiting.2.2 ≠ fullname node name) ∧
          ∀ waiting, waiting ∈ s.launching ↔ waiting = (n, node, name) ∨ waiting ∈ rest := by
  have perm := Mailbox.take_perm mail
  have inside : (n, node, name) ∈ s.launching := perm.mem_iff.mpr List.mem_cons_self
  obtain ⟨fresh, others⟩ := List.nodup_cons.mp
    ((perm.map fun waiting => fullname waiting.2.1 waiting.2.2).nodup single.apart)
  refine ⟨single.waits n _ inside, single.absent _ inside, others, ?_, ?_⟩
  · intro waiting there same
    exact fresh (List.mem_map.mpr ⟨waiting, there, same⟩)
  · intro waiting
    rw [perm.mem_iff, List.mem_cons]

theorem Single.unserved (single : Single s) {rest : List (Nat × Word × Word)}
    (mail : Mailbox.take n s.launching = some ((node, name), rest)) :
    Single { s with launching := rest, unserved := s.unserved ++ [n] } := by
  obtain ⟨_, _, others, _, members⟩ := single.ends mail
  refine ⟨single.opened, single.table, single.created, others, ?_, single.proxied, ?_,
    single.answered, ?_⟩
  · intro waiting inside
    exact single.absent waiting ((members waiting).mpr (.inr inside))
  · intro m pair inside
    exact single.waits m pair ((members _).mpr (.inr inside))
  · intro m small
    rcases single.accounted m small with replied | waits | before
    · exact .inl replied
    · obtain ⟨waiting, there, same⟩ := List.mem_map.mp waits
      rcases (members waiting).mp there with here | left
      · exact .inr (.inr (List.mem_append_right _ (List.mem_singleton.mpr (by rw [← same, here]))))
      · exact .inr (.inl (List.mem_map.mpr ⟨waiting, left, same⟩))
    · exact .inr (.inr (List.mem_append_left _ before))

theorem Single.launched (single : Single s) {rest : List (Nat × Word × Word)}
    (mail : Mailbox.take n s.launching = some ((node, name), rest)) (result : Launched) :
    Single (launched { s with launching := rest } n node name result) := by
  obtain ⟨command, absent, others, different, members⟩ := single.ends mail
  cases result with
  | raised => exact single.unserved mail
  | exited =>
    have same : Function.update s.proxy (fullname node name) none = s.proxy := by
      rw [← absent, Function.update_eq_self]
    unfold Clusterd.launched
    simp only [same]
    exact single.unserved mail
  | started =>
    have last : (s.services ++ [(node, name)])[s.services.length]? = some (node, name) :=
      List.getElem?_concat_length
    refine ⟨single.opened, single.table, single.created, others, ?_, ?_, ?_, ?_, ?_⟩
    · intro waiting inside
      exact (Function.update_of_ne (different waiting inside) _ _).trans
        (single.absent waiting ((members waiting).mpr (.inr inside)))
    · intro h node' name' served
      rcases Nat.lt_or_ge h s.services.length with old | new_
      · have before : s.services[h]? = some (node', name') := by
          rwa [← List.getElem?_append_left old]
        have kept := single.proxied h node' name' before
        by_cases here : fullname node' name' = fullname node name
        · rw [here, absent] at kept
          cases kept
        · exact (Function.update_of_ne here _ _).trans kept
      · obtain ⟨bound, _⟩ := List.getElem?_eq_some_iff.mp served
        have bound' : h < s.services.length + 1 := by
          simpa [Clusterd.launched] using bound
        have here : h = s.services.length := by omega
        subst here
        cases last.symm.trans served
        exact Function.update_self ..
    · intro m pair inside
      exact single.waits m pair ((members _).mpr (.inr inside))
    · intro m h inside
      rcases List.mem_append.mp inside with old | new_
      · obtain ⟨pair, asked, served⟩ := single.answered m h old
        refine ⟨pair, asked, ?_⟩
        exact (List.getElem?_append_left (List.getElem?_eq_some_iff.mp served).1).trans served
      · cases List.mem_singleton.mp new_
        exact ⟨_, command, last⟩
    · intro m small
      rcases single.accounted m small with replied | waits | before
      · refine .inl ?_
        rw [Clusterd.launched, List.map_append, List.mem_append]
        exact .inl replied
      · obtain ⟨waiting, there, same⟩ := List.mem_map.mp waits
        rcases (members waiting).mp there with here | left
        · refine .inl ?_
          rw [Clusterd.launched, List.map_append, List.mem_append]
          exact .inr (List.mem_singleton.mpr (by rw [← same, here]))
        · exact .inr (.inl (List.mem_map.mpr ⟨waiting, left, same⟩))
      · exact .inr (.inr before)

end Proxies

section Runs

variable {tonumber : List UInt8 → Option Int64}

theorem Single.step (single : Single s) {action : Action} (calm : Calm s action)
    (taken : step tonumber s action = some t) : Single t := by
  cases action with
  | reload config =>
    cases taken
    exact ⟨single.opened, single.table, single.created, single.apart, single.absent, single.proxied,
      single.waits, single.answered, single.accounted⟩
  | req r => exact single.req calm taken
  | connected c ok =>
    obtain ⟨⟨r, rest⟩, mail, after⟩ := Option.bind_eq_some_iff.mp taken
    exact single.connected mail after
  | proxy node name =>
    cases taken
    exact single.askProxy calm
  | launched n result =>
    obtain ⟨⟨⟨node, name⟩, rest⟩, mail, after⟩ := Option.map_eq_some_iff.mp taken
    rw [← after]
    exact single.launched mail result

theorem run_single (tonumber : List UInt8 → Option Int64) (actions : List Action)
    (calm : Transition.Along (Clusterd.step tonumber) Calm start actions)
    (reached : Transition.run (Clusterd.step tonumber) start actions = some s) : Single s := by
  have path := Transition.Path.of_run actions (.refl start) calm reached
  exact path.invariant Single (fun _ _ _ single calm taken => single.step calm taken) start_single

theorem Single.services_nodup (single : Single s) : s.services.Nodup := by
  rw [List.nodup_iff_getElem?_ne_getElem?]
  intro i j before bound same
  obtain ⟨pair, found⟩ : ∃ pair, s.services[j]? = some pair :=
    ⟨_, List.getElem?_eq_getElem bound⟩
  have one := single.proxied i pair.1 pair.2 (same.trans found)
  have two := single.proxied j pair.1 pair.2 found
  have equal := Option.some.inj (one.symm.trans two)
  omega

theorem clusterd_single (tonumber : List UInt8 → Option Int64) (actions : List Action)
    (calm : Transition.Along (Clusterd.step tonumber) Calm start actions)
    (reached : Transition.run (Clusterd.step tonumber) start actions = some s) :
    (∀ node, (s.stored.map Prod.fst).count node ≤ 1 ∧
      s.channels.countP (·.node = node) ≤ s.failed.count node + 1) ∧
    (∀ pair, s.services.count pair ≤ 1) ∧
    (∀ n h, (n, h) ∈ s.replies → ∃ pair, s.asked[n]? = some pair ∧ s.services[h]? = some pair) ∧
    ∀ n, n < s.asked.length →
      n ∈ s.replies.map Prod.fst ∨ n ∈ s.launching.map Prod.fst ∨ n ∈ s.unserved := by
  have single := run_single tonumber actions calm reached
  refine ⟨?_, ?_, single.answered, single.accounted⟩
  · intro node
    have one := List.nodup_iff_count_le_one.mp single.opened node
    have created := single.created node
    have part : (s.stored.map Prod.fst).count node ≤ s.nodes.count node := by
      rw [nodes, List.count_append]
      exact Nat.le_add_right _ _
    exact ⟨part.trans one, by omega⟩
  · exact List.nodup_iff_count_le_one.mp single.services_nodup

def oneNode : Action := .reload [(.text [97], some [104, 58, 49])]

def toNode (source : Nat) : Action := .req ⟨source, .text [97], .number 5, [1]⟩

def inTurn : List Action :=
  [oneNode, toNode 1, .connected 0 true, toNode 2, .proxy (.text [97]) (.text [98]),
    .launched 0 .started, .proxy (.text [97]) (.text [98])]

theorem inTurn_single :
    ∃ s, Transition.run (Clusterd.step Lua.strToInt) start inTurn = some s ∧
      s.replies = [(0, 0), (1, 0)] ∧
      (∀ node, (s.stored.map Prod.fst).count node ≤ 1 ∧
        s.channels.countP (·.node = node) ≤ s.failed.count node + 1) ∧
      (∀ pair, s.services.count pair ≤ 1) ∧
      (∀ n h, (n, h) ∈ s.replies → ∃ pair, s.asked[n]? = some pair ∧ s.services[h]? = some pair) ∧
      ∀ n, n < s.asked.length →
        n ∈ s.replies.map Prod.fst ∨ n ∈ s.launching.map Prod.fst ∨ n ∈ s.unserved :=
  ⟨_, rfl, rfl, clusterd_single Lua.strToInt inTurn (by decide) rfl⟩

-- Two requests for "a" and two commands for ("a", "b.c") come before the first is done, and then
-- one for ("a.b", "c").
def atOnce : List Action :=
  [oneNode, toNode 1, toNode 2, .connected 0 true, .connected 1 true,
    .proxy (.text [97]) (.text [98, 46, 99]), .proxy (.text [97]) (.text [98, 46, 99]),
    .launched 0 .started, .launched 1 .started, .proxy (.text [97, 46, 98]) (.text [99])]

theorem atOnce_doubled :
    ∃ s, Transition.run (Clusterd.step Lua.strToInt) start atOnce = some s ∧
      (s.stored.map Prod.fst).count (.text [97]) = 2 ∧
      s.services.count (.text [97], .text [98, 46, 99]) = 2 ∧
      (2, 1) ∈ s.replies ∧ s.asked[2]? ≠ s.services[1]? :=
  ⟨_, rfl, by decide, by decide, by decide, by decide⟩

end Runs

end Clusterd

end Pskynet.Cluster
