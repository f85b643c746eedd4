import Mathlib.Data.Finset.Interval
import Mathlib.Logic.Function.Basic
import Mathlib.Tactic

set_option autoImplicit false

namespace Pskynet.Multicast

-- The tables of one node's `multicastd`. A group is the list of the keys of a Lua table.
structure Multicastd where
  harborId : Nat
  channel : Nat → Option (List Nat)
  channelN : Nat → Option Int
  channelRemote : Nat → Option (List Nat)
  channelId : UInt32

namespace Multicastd

def start (harborId : Nat) : Multicastd where
  harborId := harborId
  channel := fun _ => none
  channelN := fun _ => none
  channelRemote := fun _ => none
  channelId := UInt32.ofNat harborId

inductive Command where
  | del (c : Nat)
  | delr (c : Nat)
  | usubr (c : Nat)
  deriving DecidableEq

def setGroup (m : Multicastd) (c : Nat) (group : Option (List Nat)) (n : Option Int) : Multicastd :=
  { m with
    channel := Function.update m.channel c group
    channelN := Function.update m.channelN c n }

def setRemote (m : Multicastd) (c : Nat) (remote : Option (List Nat)) : Multicastd :=
  { m with channelRemote := Function.update m.channelRemote c remote }

@[simp] theorem channel_setGroup (m : Multicastd) (c : Nat) (group : Option (List Nat))
    (n : Option Int) : (m.setGroup c group n).channel c = group := by
  simp [setGroup]

@[simp] theorem channelRemote_setGroup (m : Multicastd) (c : Nat) (group : Option (List Nat))
    (n : Option Int) : (m.setGroup c group n).channelRemote = m.channelRemote := rfl

@[simp] theorem harborId_setGroup (m : Multicastd) (c : Nat) (group : Option (List Nat))
    (n : Option Int) : (m.setGroup c group n).harborId = m.harborId := rfl

@[simp] theorem channelRemote_setRemote (m : Multicastd) (c : Nat) (remote : Option (List Nat)) :
    (m.setRemote c remote).channelRemote c = remote := by
  simp [setRemote]

@[simp] theorem channel_setRemote (m : Multicastd) (c : Nat) (remote : Option (List Nat)) :
    (m.setRemote c remote).channel = m.channel := rfl

@[simp] theorem harborId_setRemote (m : Multicastd) (c : Nat) (remote : Option (List Nat)) :
    (m.setRemote c remote).harborId = m.harborId := rfl

-- The loop of NEW goes through the ids 256 apart and does not end when all of them are taken.
def freeId (m : Multicastd) : Nat → UInt32 → Option UInt32
  | 0, _ => none
  | fuel + 1, id => if (m.channel id.toNat).isSome then m.freeId fuel (id + 256) else some id

def new (m : Multicastd) : Option (Multicastd × Nat) :=
  (m.freeId (2 ^ 24) m.channelId).map fun id =>
    ({ m.setGroup id.toNat (some []) (some 0) with channelId := id + 256 }, id.toNat)

def delr (m : Multicastd) (c : Nat) : Multicastd := m.setGroup c none none

def del (m : Multicastd) (c : Nat) : Multicastd × List (Nat × Command) :=
  if c % 256 = m.harborId then
    ((m.setGroup c none none).setRemote c none,
      ((m.channelRemote c).getD []).map fun node => (node, .delr c))
  else (m, [(c % 256, .del c)])

-- The answer is whether the channel does not exist. A failed assertion gives none.
def subr (m : Multicastd) (node c : Nat) : Option (Multicastd × Bool) :=
  if m.channel c = none then some (m, true)
  else if node ≠ m.harborId ∧ c % 256 = m.harborId then
    some (m.setRemote c (some (((m.channelRemote c).getD []).insert node)), false)
  else none

def asks (m : Multicastd) (c : Nat) : Bool := c % 256 ≠ m.harborId ∧ m.channel c = none

def join (m : Multicastd) (source c : Nat) : Option Multicastd :=
  match m.channel c with
  | none => some m
  | some group =>
      if source ∈ group then some m
      else (m.channelN c).map fun n => m.setGroup c (some (source :: group)) (some (n + 1))

def answered (m : Multicastd) (source c : Nat) (gone : Bool) : Option Multicastd :=
  if gone then some m
  else if m.channel c = none then (m.setGroup c (some []) (some 0)).join source c
  else m.join source c

def usubr (m : Multicastd) (node c : Nat) : Option Multicastd :=
  if node = m.harborId then none
  else (m.channelRemote c).map fun group => m.setRemote c (some (group.erase node))

def usub (m : Multicastd) (source c : Nat) : Option (Multicastd × List (Nat × Command)) :=
  (m.channel c).bind fun group =>
    if source ∈ group then
      (m.channelN c).map fun n =>
        if n - 1 = 0 ∧ c % 256 ≠ m.harborId then
          (m.setGroup c none none, [(c % 256, .usubr c)])
        else (m.setGroup c (some (group.erase source)) (some (n - 1)), [])
    else some (m, [])

def isLocal (m : Multicastd) (source : Nat) : Prop := source / 2 ^ 24 = m.harborId

instance (m : Multicastd) (source : Nat) : Decidable (m.isLocal source) := Nat.decEq _ _

structure Counted (m : Multicastd) : Prop where
  count : ∀ c group, m.channel c = some group → m.channelN c = some (group.length : Int)
  members : ∀ c group, m.channel c = some group →
    group.Nodup ∧ ∀ source ∈ group, m.isLocal source

theorem start_counted (harborId : Nat) : Counted (start harborId) := by
  constructor
  · intro c group found
    cases found
  · intro c group found
    cases found

theorem Counted.setGroup {m : Multicastd} (counted : Counted m) (c : Nat) (group : List Nat)
    (n : Int) (count : n = group.length) (nodup : group.Nodup)
    (locals : ∀ source ∈ group, m.isLocal source) :
    Counted (m.setGroup c (some group) (some n)) := by
  constructor
  · intro other found is
    by_cases same : other = c
    · subst same
      simp only [Multicastd.setGroup, Function.update_self, Option.some.injEq] at is ⊢
      rw [count, is]
    · simp only [Multicastd.setGroup, Function.update_of_ne same] at is ⊢
      exact counted.count other found is
  · intro other found is
    by_cases same : other = c
    · subst same
      simp only [Multicastd.setGroup, Function.update_self, Option.some.injEq] at is
      exact is ▸ ⟨nodup, locals⟩
    · simp only [Multicastd.setGroup, Function.update_of_ne same] at is
      exact counted.members other found is

theorem Counted.unset {m : Multicastd} (counted : Counted m) (c : Nat) :
    Counted (m.setGroup c none none) := by
  constructor
  · intro other found is
    by_cases same : other = c
    · subst same
      simp [Multicastd.setGroup] at is
    · simp only [Multicastd.setGroup, Function.update_of_ne same] at is ⊢
      exact counted.count other found is
  · intro other found is
    by_cases same : other = c
    · subst same
      simp [Multicastd.setGroup] at is
    · simp only [Multicastd.setGroup, Function.update_of_ne same] at is
      exact counted.members other found is

theorem Counted.setRemote {m : Multicastd} (counted : Counted m) (c : Nat)
    (remote : Option (List Nat)) : Counted (m.setRemote c remote) :=
  ⟨counted.count, counted.members⟩

theorem Counted.new {m m' : Multicastd} {c : Nat} (counted : Counted m)
    (made : m.new = some (m', c)) : Counted m' := by
  obtain ⟨id, _, is⟩ := Option.map_eq_some_iff.mp made
  rw [Prod.mk.injEq] at is
  obtain ⟨rfl, rfl⟩ := is
  have set := counted.setGroup id.toNat [] 0 rfl List.nodup_nil (by simp)
  exact ⟨set.count, set.members⟩

theorem Counted.del {m : Multicastd} (counted : Counted m) (c : Nat) : Counted (m.del c).1 := by
  unfold Multicastd.del
  split
  · exact (counted.unset c).setRemote c none
  · exact counted

theorem Counted.subr {m m' : Multicastd} {node c : Nat} {gone : Bool} (counted : Counted m)
    (done : m.subr node c = some (m', gone)) : Counted m' := by
  unfold Multicastd.subr at done
  split_ifs at done
  · simp only [Option.some.injEq, Prod.mk.injEq] at done
    exact done.1 ▸ counted
  · simp only [Option.some.injEq, Prod.mk.injEq] at done
    exact done.1 ▸ counted.setRemote c _

theorem Counted.join {m m' : Multicastd} {source c : Nat} (counted : Counted m)
    (isLocal : m.isLocal source) (done : m.join source c = some m') : Counted m' := by
  unfold Multicastd.join at done
  cases found : m.channel c with
  | none =>
    simp only [found, Option.some.injEq] at done
    exact done ▸ counted
  | some group =>
    simp only [found] at done
    split_ifs at done with inside
    · exact Option.some.inj done ▸ counted
    · rw [counted.count c group found, Option.map_some, Option.some.injEq] at done
      obtain ⟨nodup, locals⟩ := counted.members c group found
      rw [← done]
      refine counted.setGroup c _ _ (by simp) (List.nodup_cons.mpr ⟨inside, nodup⟩) ?_
      intro other member
      rcases List.mem_cons.mp member with is | old
      · exact is ▸ isLocal
      · exact locals other old

theorem Counted.answered {m m' : Multicastd} {source c : Nat} {gone : Bool} (counted : Counted m)
    (isLocal : m.isLocal source) (done : m.answered source c gone = some m') : Counted m' := by
  unfold Multicastd.answered at done
  split_ifs at done
  · exact Option.some.inj done ▸ counted
  · exact (counted.setGroup c [] 0 rfl List.nodup_nil (by simp)).join isLocal done
  · exact counted.join isLocal done

theorem Counted.usubr {m m' : Multicastd} {node c : Nat} (counted : Counted m)
    (done : m.usubr node c = some m') : Counted m' := by
  unfold Multicastd.usubr at done
  split_ifs at done
  obtain ⟨group, _, rfl⟩ := Option.map_eq_some_iff.mp done
  exact counted.setRemote c _

theorem Counted.usub {m m' : Multicastd} {source c : Nat} {sent : List (Nat × Command)}
    (counted : Counted m) (done : m.usub source c = some (m', sent)) : Counted m' := by
  obtain ⟨group, found, done⟩ := Option.bind_eq_some_iff.mp done
  split_ifs at done with inside
  · rw [counted.count c group found, Option.map_some, Option.some.injEq] at done
    split_ifs at done
    · rw [← (Prod.mk.inj done).1]
      exact counted.unset c
    · obtain ⟨nodup, locals⟩ := counted.members c group found
      have pos := List.length_pos_of_mem inside
      rw [← (Prod.mk.inj done).1]
      refine counted.setGroup c _ _ ?_ (nodup.erase source) ?_
      · rw [List.length_erase_of_mem inside]
        omega
      · intro other member
        exact locals other (List.mem_of_mem_erase member)
  · rw [Option.some.injEq] at done
    exact (Prod.mk.inj done).1 ▸ counted

theorem Counted.bound {m : Multicastd} (counted : Counted m) {c : Nat} {group : List Nat}
    (found : m.channel c = some group) : group.length ≤ 2 ^ 24 := by
  obtain ⟨nodup, locals⟩ := counted.members c group found
  have inside : group.toFinset ⊆ Finset.Ico (m.harborId * 2 ^ 24) ((m.harborId + 1) * 2 ^ 24) := by
    intro source member
    have high : source / 2 ^ 24 = m.harborId := locals source (List.mem_toFinset.mp member)
    rw [Finset.mem_Ico]
    omega
  have few := Finset.card_le_card inside
  rw [List.toFinset_card_of_nodup nodup, Nat.card_Ico] at few
  omega

end Multicastd

end Pskynet.Multicast
