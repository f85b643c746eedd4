import Pskynet.Shared.Transition
import Pskynet.Multicast.Service

set_option autoImplicit false

namespace Pskynet.Multicast

inductive Request where
  | subr (source : Nat)
  | usubr
  deriving DecidableEq

inductive Answer where
  | subr (source : Nat) (gone : Bool)
  | delr
  deriving DecidableEq

-- The owner of a channel and another node, with the messages about the channel between them.
-- `looking` holds the SUBs that still wait for the owner's address. `latest` is the last request
-- that the node has sent.
structure Nodes where
  owner : Multicastd
  node : Multicastd
  looking : List Nat
  toOwner : List Request
  toNode : List Answer
  latest : Option Request

inductive Event where
  | sub (source : Nat)
  | ask (source : Nat)
  | usub (source : Nat)
  | request
  | answer
  | ownerSub (source : Nat)
  | ownerUsub (source : Nat)
  | otherSubr (node : Nat)
  | otherUsubr (node : Nat)
  | del

namespace Nodes

def start (owner node : Multicastd) : Nodes where
  owner := owner
  node := node
  looking := []
  toOwner := []
  toNode := []
  latest := none

def send (s : Nodes) (request : Request) : Nodes :=
  { s with
    toOwner := s.toOwner ++ [request]
    latest := some request }

-- A failed assertion leaves the tables as they are.
def handle (s : Nodes) (c : Nat) : Request → Nodes
  | .subr source =>
      match s.owner.subr s.node.harborId c with
      | some (owner, gone) => { s with owner := owner, toNode := s.toNode ++ [.subr source gone] }
      | none => s
  | .usubr => { s with owner := (s.owner.usubr s.node.harborId c).getD s.owner }

def step (c : Nat) (s : Nodes) : Event → Option Nodes
  | .sub source =>
      if s.node.asks c then some { s with looking := source :: s.looking }
      else (s.node.join source c).map fun node => { s with node := node }
  | .ask source =>
      if source ∈ s.looking then
        some ({ s with looking := s.looking.erase source }.send (.subr source))
      else none
  | .usub source =>
      (s.node.usub source c).map fun (node, sent) =>
        if sent = [] then { s with node := node } else { s with node := node }.send .usubr
  | .request =>
      match s.toOwner with
      | request :: rest => some ({ s with toOwner := rest }.handle c request)
      | [] => none
  | .answer =>
      match s.toNode with
      | .subr source gone :: rest =>
          (s.node.answered source c gone).map fun node => { s with node := node, toNode := rest }
      | .delr :: rest => some { s with node := s.node.delr c, toNode := rest }
      | [] => none
  | .ownerSub source => (s.owner.join source c).map fun owner => { s with owner := owner }
  | .ownerUsub source => (s.owner.usub source c).map fun (owner, _) => { s with owner := owner }
  | .otherSubr node =>
      if node = s.node.harborId then none
      else (s.owner.subr node c).map fun (owner, _) => { s with owner := owner }
  | .otherUsubr node =>
      if node = s.node.harborId then none
      else (s.owner.usubr node c).map fun owner => { s with owner := owner }
  | .del =>
      let (owner, sent) := s.owner.del c
      some { s with
        owner := owner
        toNode := if (s.node.harborId, .delr c) ∈ sent then s.toNode ++ [.delr] else s.toNode }

def Flagged (s : Nodes) (c : Nat) : Prop :=
  ∃ remote, s.owner.channelRemote c = some remote ∧ s.node.harborId ∈ remote

def Quiet (s : Nodes) : Prop :=
  s.toOwner = [] ∧ ∀ source gone, .subr source gone ∉ s.toNode

def Connected (c : Nat) (s : Nodes) : Prop :=
  s.Quiet → s.owner.channel c ≠ none →
    (∃ group source, s.node.channel c = some group ∧ source ∈ group) → s.Flagged c

def Recent (c : Nat) (s : Nodes) : Event → Prop
  | .answer => (∃ source, s.toNode.head? = some (.subr source false)) →
      s.node.channel c = none → s.latest ≠ some .usubr
  | _ => True

structure Linked (c : Nat) (s : Nodes) : Prop where
  own : c % 256 = s.owner.harborId
  apart : s.node.harborId ≠ s.owner.harborId
  last : s.toOwner = [] ∨ s.toOwner.getLast? = s.latest
  flag : s.owner.channel c ≠ none → s.toOwner = [] → (∃ source, s.latest = some (.subr source)) →
    s.Flagged c
  asked : ∀ source gone, .subr source gone ∈ s.toNode → s.latest ≠ none
  opened : s.node.channel c ≠ none → ∃ source, s.latest = some (.subr source)

end Nodes

namespace Multicastd

variable {m m' : Multicastd} {c : Nat}

theorem join_frame {source : Nat} (done : m.join source c = some m') :
    m'.harborId = m.harborId ∧ m'.channelRemote = m.channelRemote ∧
      (m'.channel c = none ↔ m.channel c = none) := by
  unfold join at done
  cases found : m.channel c with
  | none =>
    simp only [found, Option.some.injEq] at done
    subst done
    exact ⟨rfl, rfl, by rw [found]⟩
  | some group =>
    simp only [found] at done
    split_ifs at done
    · rw [Option.some.injEq] at done
      subst done
      exact ⟨rfl, rfl, by rw [found]⟩
    · obtain ⟨n, _, rfl⟩ := Option.map_eq_some_iff.mp done
      simp

theorem answered_frame {source : Nat} {gone : Bool} (done : m.answered source c gone = some m') :
    m'.harborId = m.harborId ∧ (gone = true → m' = m) ∧ (gone = false → m'.channel c ≠ none) := by
  unfold answered at done
  split_ifs at done with gone_ closed
  · exact ⟨Option.some.inj done ▸ rfl, fun _ => (Option.some.inj done).symm,
      fun open_ => absurd (gone_.symm.trans open_) Bool.noConfusion⟩
  · obtain ⟨harbor, _, channel⟩ := join_frame done
    rw [channel_setGroup] at channel
    exact ⟨harbor, fun some_ => absurd some_ gone_, fun _ is => absurd (channel.mp is) (by simp)⟩
  · obtain ⟨harbor, _, channel⟩ := join_frame done
    exact ⟨harbor, fun some_ => absurd some_ gone_, fun _ is => closed (channel.mp is)⟩

theorem subr_frame {node : Nat} {gone : Bool} (done : m.subr node c = some (m', gone)) :
    m'.harborId = m.harborId ∧ m'.channel = m.channel ∧
      (m.channel c ≠ none → m'.channelRemote c = some (((m.channelRemote c).getD []).insert node)) := by
  unfold subr at done
  split_ifs at done with closed
  · rw [Option.some.injEq, Prod.mk.injEq] at done
    obtain ⟨rfl, _⟩ := done
    exact ⟨rfl, rfl, fun open_ => absurd closed open_⟩
  · rw [Option.some.injEq, Prod.mk.injEq] at done
    obtain ⟨rfl, _⟩ := done
    exact ⟨rfl, rfl, fun _ => channelRemote_setRemote ..⟩

theorem usubr_frame {node : Nat} (done : m.usubr node c = some m') :
    m'.harborId = m.harborId ∧ m'.channel = m.channel ∧ ∃ group, m.channelRemote c = some group ∧
      m'.channelRemote c = some (group.erase node) := by
  unfold usubr at done
  split_ifs at done
  obtain ⟨group, found, rfl⟩ := Option.map_eq_some_iff.mp done
  exact ⟨rfl, rfl, group, found, channelRemote_setRemote ..⟩

theorem usub_frame {source : Nat} {sent : List (Nat × Command)}
    (done : m.usub source c = some (m', sent)) :
    m'.harborId = m.harborId ∧ m'.channelRemote = m.channelRemote ∧ m.channel c ≠ none ∧
      (sent = [] ∧ m'.channel c ≠ none ∨
        sent ≠ [] ∧ m'.channel c = none ∧ c % 256 ≠ m.harborId) := by
  obtain ⟨group, found, done⟩ := Option.bind_eq_some_iff.mp done
  have open_ : m.channel c ≠ none := by simp [found]
  split_ifs at done
  · obtain ⟨n, _, done⟩ := Option.map_eq_some_iff.mp done
    split_ifs at done with last
    · rw [Prod.mk.injEq] at done
      obtain ⟨rfl, rfl⟩ := done
      exact ⟨rfl, rfl, open_, .inr ⟨List.cons_ne_nil _ _, channel_setGroup .., last.2⟩⟩
    · rw [Prod.mk.injEq] at done
      obtain ⟨rfl, rfl⟩ := done
      exact ⟨rfl, rfl, open_, .inl ⟨rfl, by simp⟩⟩
  · rw [Option.some.injEq, Prod.mk.injEq] at done
    obtain ⟨rfl, rfl⟩ := done
    exact ⟨rfl, rfl, open_, .inl ⟨rfl, open_⟩⟩

end Multicastd

namespace Nodes

variable {c : Nat} {s t : Nodes}

theorem Linked.connected (linked : Linked c s) : Connected c s := by
  rintro ⟨empty, _⟩ alive ⟨group, source, found, _⟩
  refine linked.flag alive empty (linked.opened ?_)
  simp [found]

theorem Linked.owner (linked : Linked c s) {owner : Multicastd}
    (harbor : owner.harborId = s.owner.harborId)
    (alive : owner.channel c ≠ none → s.owner.channel c ≠ none)
    (flag : owner.channel c ≠ none → s.Flagged c → ({ s with owner := owner } : Nodes).Flagged c) :
    Linked c { s with owner := owner } := by
  refine ⟨linked.own.trans harbor.symm, ?_, linked.last, ?_, linked.asked, linked.opened⟩
  · intro same
    exact linked.apart (same.trans harbor)
  · intro open_ empty asked
    exact flag open_ (linked.flag (alive open_) empty asked)

theorem Linked.node (linked : Linked c s) {node : Multicastd}
    (harbor : node.harborId = s.node.harborId)
    (opened : node.channel c ≠ none → ∃ source, s.latest = some (.subr source)) :
    Linked c { s with node := node } := by
  refine ⟨linked.own, ?_, linked.last, ?_, linked.asked, opened⟩
  · intro same
    exact linked.apart (harbor.symm.trans same)
  · intro alive empty asked
    obtain ⟨remote, found, member⟩ := linked.flag alive empty asked
    exact ⟨remote, found, by rw [harbor]; exact member⟩

theorem Linked.send (linked : Linked c s) (request : Request)
    (opened : s.node.channel c ≠ none → ∃ source, request = .subr source) :
    Linked c (s.send request) := by
  refine ⟨linked.own, linked.apart, .inr (List.getLast?_concat ..), ?_, ?_, ?_⟩
  · intro _ empty
    exact absurd empty (by simp [Nodes.send])
  · intro source gone _
    exact Option.some_ne_none request
  · intro open_
    obtain ⟨source, is⟩ := opened open_
    exact ⟨source, congrArg some is⟩

theorem Linked.taken (linked : Linked c s) {request : Request} {rest : List Request}
    (queue : s.toOwner = request :: rest) :
    (rest = [] ∧ s.latest = some request) ∨ rest ≠ [] ∧ rest.getLast? = s.latest := by
  have last : s.toOwner.getLast? = s.latest := by
    refine linked.last.resolve_left ?_
    simp [queue]
  rw [queue] at last
  cases rest with
  | nil => exact .inl ⟨rfl, last.symm⟩
  | cons next rest => exact .inr ⟨List.cons_ne_nil _ _, by rw [← last, List.getLast?_cons_cons]⟩

theorem Linked.latest (linked : Linked c s) {request : Request} {rest : List Request}
    (queue : s.toOwner = request :: rest) : s.latest ≠ none := by
  rcases linked.taken queue with ⟨_, is⟩ | ⟨some_, is⟩
  · simp [is]
  · intro none_
    rw [none_, List.getLast?_eq_none_iff] at is
    exact some_ is

theorem Linked.request (linked : Linked c s) {request : Request} {rest : List Request}
    (queue : s.toOwner = request :: rest) :
    Linked c ({ s with toOwner := rest }.handle c request) := by
  have last : rest = [] ∨ rest.getLast? = s.latest := by
    rcases linked.taken queue with ⟨empty, _⟩ | ⟨_, is⟩
    · exact .inl empty
    · exact .inr is
  cases request with
  | subr source =>
    cases done : s.owner.subr s.node.harborId c with
    | none =>
      simp only [Multicastd.subr, linked.apart, linked.own, ne_eq, not_false_eq_true, and_self,
        if_true] at done
      split_ifs at done
    | some result =>
      obtain ⟨owner, gone⟩ := result
      obtain ⟨harbor, channel, remote⟩ := Multicastd.subr_frame done
      have next : { s with toOwner := rest }.handle c (.subr source) =
          { s with
            owner := owner
            toOwner := rest
            toNode := s.toNode ++ [.subr source gone] } := by
        simp [handle, done]
      rw [next]
      refine ⟨linked.own.trans harbor.symm, ?_, last, ?_, ?_, linked.opened⟩
      · intro same
        exact linked.apart (same.trans harbor)
      · intro open_ _ _
        rw [channel] at open_
        exact ⟨_, remote open_, List.mem_insert_self⟩
      · intro _ _ _
        exact linked.latest queue
  | usubr =>
    have harbor : ((s.owner.usubr s.node.harborId c).getD s.owner).harborId = s.owner.harborId := by
      cases done : s.owner.usubr s.node.harborId c with
      | none => rfl
      | some owner => exact (Multicastd.usubr_frame done).1
    refine ⟨linked.own.trans harbor.symm, ?_, last, ?_, linked.asked, linked.opened⟩
    · intro same
      exact linked.apart (same.trans harbor)
    · rintro _ empty ⟨source, is⟩
      rcases linked.taken queue with ⟨_, latest⟩ | ⟨some_, _⟩
      · cases latest.symm.trans is
      · exact absurd empty some_

theorem Linked.answer (linked : Linked c s) (recent : Recent c s .answer) {source : Nat}
    {gone : Bool} {rest : List Answer} {node : Multicastd}
    (queue : s.toNode = .subr source gone :: rest)
    (done : s.node.answered source c gone = some node) :
    Linked c { s with node := node, toNode := rest } := by
  obtain ⟨harbor, gone_, there⟩ := Multicastd.answered_frame done
  have opened : node.channel c ≠ none → ∃ source, s.latest = some (.subr source) := by
    intro open_
    by_cases before : s.node.channel c = none
    · cases gone with
      | true => exact absurd ((gone_ rfl) ▸ before) open_
      | false =>
        have some_ : s.latest ≠ none :=
          linked.asked source false (by rw [queue]; exact List.mem_cons_self)
        have other := recent ⟨source, by rw [queue]; rfl⟩ before
        cases latest : s.latest with
        | none => exact absurd latest some_
        | some request =>
          cases request with
          | subr source => exact ⟨source, rfl⟩
          | usubr => exact absurd latest other
    · exact linked.opened before
  have set := linked.node harbor opened
  refine ⟨set.own, set.apart, set.last, set.flag, ?_, set.opened⟩
  intro other gone inside
  exact linked.asked other gone (by rw [queue]; exact List.mem_cons_of_mem _ inside)

theorem step_linked (linked : Linked c s) (event : Event) (recent : Recent c s event)
    (taken : step c s event = some t) : Linked c t := by
  cases event with
  | sub source =>
    simp only [step] at taken
    split_ifs at taken with asks
    · rw [Option.some.injEq] at taken
      subst taken
      exact ⟨linked.own, linked.apart, linked.last, linked.flag, linked.asked, linked.opened⟩
    · obtain ⟨node, done, rfl⟩ := Option.map_eq_some_iff.mp taken
      obtain ⟨harbor, _, channel⟩ := Multicastd.join_frame done
      refine linked.node harbor ?_
      intro open_
      exact linked.opened (mt channel.mpr open_)
  | ask source =>
    simp only [step] at taken
    split_ifs at taken
    rw [Option.some.injEq] at taken
    subst taken
    have same : Linked c { s with looking := s.looking.erase source } :=
      ⟨linked.own, linked.apart, linked.last, linked.flag, linked.asked, linked.opened⟩
    exact same.send (.subr source) fun _ => ⟨source, rfl⟩
  | usub source =>
    obtain ⟨⟨node, sent⟩, done, rfl⟩ := Option.map_eq_some_iff.mp taken
    obtain ⟨harbor, _, open_, ⟨none_, _⟩ | ⟨some_, closed, _⟩⟩ := Multicastd.usub_frame done
    · simp only [none_, if_true]
      exact linked.node harbor fun _ => linked.opened open_
    · simp only [some_, if_false]
      have set := linked.node harbor fun open_ => absurd closed open_
      exact set.send .usubr fun open_ => absurd closed open_
  | request =>
    simp only [step] at taken
    split at taken
    · rename_i request rest queue
      exact Option.some.inj taken ▸ linked.request queue
    · contradiction
  | answer =>
    simp only [step] at taken
    split at taken
    · rename_i source gone rest queue
      obtain ⟨node, done, rfl⟩ := Option.map_eq_some_iff.mp taken
      exact linked.answer recent queue done
    · rename_i rest queue
      rw [Option.some.injEq] at taken
      subst taken
      have set : Linked c { s with node := s.node.delr c } :=
        linked.node rfl fun open_ => absurd (Multicastd.channel_setGroup ..) open_
      refine ⟨set.own, set.apart, set.last, set.flag, ?_, set.opened⟩
      intro other gone inside
      exact linked.asked other gone (by rw [queue]; exact List.mem_cons_of_mem _ inside)
    · contradiction
  | ownerSub source =>
    obtain ⟨owner, done, rfl⟩ := Option.map_eq_some_iff.mp taken
    obtain ⟨harbor, remote, channel⟩ := Multicastd.join_frame done
    refine linked.owner harbor (mt channel.mpr) ?_
    rintro _ ⟨group, found, member⟩
    exact ⟨group, by rw [remote]; exact found, member⟩
  | ownerUsub source =>
    obtain ⟨⟨owner, sent⟩, done, rfl⟩ := Option.map_eq_some_iff.mp taken
    obtain ⟨harbor, remote, open_, _⟩ := Multicastd.usub_frame done
    refine linked.owner harbor (fun _ => open_) ?_
    rintro _ ⟨group, found, member⟩
    exact ⟨group, by rw [remote]; exact found, member⟩
  | otherSubr node =>
    simp only [step] at taken
    split_ifs at taken with other
    obtain ⟨⟨owner, gone⟩, done, rfl⟩ := Option.map_eq_some_iff.mp taken
    obtain ⟨harbor, channel, remote⟩ := Multicastd.subr_frame done
    refine linked.owner harbor (fun open_ => channel ▸ open_) ?_
    rintro open_ ⟨group, found, member⟩
    refine ⟨_, remote (channel ▸ open_), List.mem_insert_of_mem ?_⟩
    rw [found]
    exact member
  | otherUsubr node =>
    simp only [step] at taken
    split_ifs at taken with other
    obtain ⟨owner, done, rfl⟩ := Option.map_eq_some_iff.mp taken
    obtain ⟨harbor, channel, group, before, after⟩ := Multicastd.usubr_frame done
    refine linked.owner harbor (fun open_ => channel ▸ open_) ?_
    rintro _ ⟨group', found, member⟩
    rw [before, Option.some.injEq] at found
    subst found
    exact ⟨_, after, (List.mem_erase_of_ne (Ne.symm other)).mpr member⟩
  | del =>
    simp only [step, Option.some.injEq] at taken
    subst taken
    have closed : (s.owner.del c).1.channel c = none := by
      simp [Multicastd.del, linked.own]
    have harbor : (s.owner.del c).1.harborId = s.owner.harborId := by
      simp [Multicastd.del, linked.own]
    have set := linked.owner harbor (fun open_ => absurd closed open_)
      fun open_ => absurd closed open_
    refine ⟨set.own, set.apart, set.last, set.flag, ?_, set.opened⟩
    intro source gone inside
    refine linked.asked source gone ?_
    split_ifs at inside
    · simpa using inside
    · exact inside

theorem start_linked (owner node : Multicastd) (own : c % 256 = owner.harborId)
    (apart : node.harborId ≠ owner.harborId) (closed : node.channel c = none) :
    Linked c (start owner node) := by
  refine ⟨own, apart, .inl rfl, ?_, ?_, fun open_ => absurd closed open_⟩
  · rintro _ _ ⟨source, is⟩
    cases is
  · intro source gone inside
    cases inside

theorem subscribers_connected (c : Nat) (owner node : Multicastd) (own : c % 256 = owner.harborId)
    (apart : node.harborId ≠ owner.harborId) (closed : node.channel c = none) (s : Nodes)
    (path : Transition.Path (step c) (Recent c) (start owner node) s) : Connected c s :=
  (path.invariant (Linked c)
    (fun _ event _ linked recent taken => step_linked linked event recent taken)
    (start_linked owner node own apart closed)).connected

def channelOwner : Multicastd := (Multicastd.start 1).setGroup 1 (some []) (some 0)

def subscribeOnce : List Event := [.sub 0x02000005, .ask 0x02000005, .request, .answer]

theorem subscriber_connected :
    ∃ s, Transition.run (step 1) (start channelOwner (.start 2)) subscribeOnce = some s ∧
      Connected 1 s := by
  refine ⟨_, rfl, subscribers_connected 1 channelOwner (.start 2) rfl (by decide) rfl _
    (.of_run subscribeOnce (.refl _) ⟨trivial, trivial, trivial, ?_, trivial⟩ rfl)⟩
  intro _ _ is
  cases is

-- The second service asks before the first has its answer; the first one leaves between the two
-- answers.
def subscribeTwice : List Event :=
  [.sub 0x02000005, .ask 0x02000005, .sub 0x02000006, .ask 0x02000006, .request, .request, .answer,
    .usub 0x02000005, .answer, .request]

theorem second_subscriber_cut_off :
    ¬∀ (c : Nat) (owner node : Multicastd) (events : List Event) (s : Nodes),
      c % 256 = owner.harborId → node.harborId ≠ owner.harborId → node.channel c = none →
      Transition.run (step c) (start owner node) events = some s → Connected c s := by
  intro always
  have last := always 1 channelOwner (.start 2) subscribeTwice _ rfl (by decide) rfl rfl
  obtain ⟨remote, found, member⟩ := last ⟨rfl, fun _ _ => List.not_mem_nil⟩
    (Option.some_ne_none []) ⟨_, 0x02000006, rfl, List.mem_cons_self⟩
  cases found
  exact List.not_mem_nil member

end Nodes

end Pskynet.Multicast
