import Pskynet.Shared.CInt
import Pskynet.Shared.Linked
import Pskynet.Shared.Transition

set_option autoImplicit false

namespace Pskynet.Gate

open CInt Linked

-- The nodes by their index in the array `id`, and the first node of each bucket.
structure Hashid where
  hashmod : Nat
  cap : Nat
  count : Int
  id : Nat → Int
  next : Nat → Option Nat
  hash : Nat → Option Nat

-- The results are `none` for an overflow, a failed assertion or an index outside an array.
def growHashcap (max : Int) : Nat → Int → Option Int
  | 0, _ => none
  | fuel + 1, hashcap =>
      if hashcap < max then (arith (hashcap * 2)).bind (growHashcap max fuel) else some hashcap

-- The capacity can be doubled 27 times before it is too large for an `int`.
def hashidInit (max : Nat) : Option Hashid := do
  let hashcap ← growHashcap max 32 16
  some
    { hashmod := hashcap.toNat - 1
      cap := max
      count := 0
      id := fun _ => -1
      next := fun _ => none
      hash := fun _ => none }

def Hashid.bucket (hi : Hashid) (id : Int) : Nat := (BitVec.ofInt 32 id).toNat &&& hi.hashmod

def lookupLoop (hi : Hashid) (id : Int) : Nat → Option Nat → Option Int
  | 0, _ => none
  | _ + 1, none => some (-1)
  | fuel + 1, some c => if hi.id c = id then some c else lookupLoop hi id fuel (hi.next c)

def hashidLookup (hi : Hashid) (id : Int) : Option Int :=
  lookupLoop hi id (hi.cap + 1) (hi.hash (hi.bucket id))

def clearNode (hi : Hashid) (c : Nat) : Hashid × Int :=
  ({ hi with
      id := Function.update hi.id c (-1)
      next := Function.update hi.next c none
      count := hi.count - 1 }, c)

def removeLoop (hi : Hashid) (id : Int) : Nat → Nat → Option (Hashid × Int)
  | 0, _ => none
  | fuel + 1, c =>
      match hi.next c with
      | none => some (hi, -1)
      | some temp =>
          if hi.id temp = id then
            some (clearNode { hi with next := Function.update hi.next c (hi.next temp) } temp)
          else removeLoop hi id fuel temp

def hashidRemove (hi : Hashid) (id : Int) : Option (Hashid × Int) :=
  let h := hi.bucket id
  match hi.hash h with
  | none => some (hi, -1)
  | some c =>
      if hi.id c = id then
        some (clearNode { hi with hash := Function.update hi.hash h (hi.next c) } c)
      else removeLoop hi id (hi.cap + 1) c

-- The loop over `i`, of which `left` values are left.
def probeLoop (hi : Hashid) (id : Int) : Nat → Nat → Option (Option Nat)
  | 0, _ => some none
  | left + 1, i => do
      let sum ← arith (i + id)
      let index := sum.tmod hi.cap
      if index < 0 ∨ hi.cap ≤ index then none
      else if hi.id index.toNat = -1 then some (some index.toNat)
      else probeLoop hi id left (i + 1)

def hashidInsert (hi : Hashid) (id : Int) : Option (Hashid × Int) := do
  let found ← probeLoop hi id hi.cap 0
  let c ← found
  if hi.next c ≠ none then none
  else
    let h := hi.bucket id
    some ({ hi with
      count := hi.count + 1
      id := Function.update hi.id c id
      next := Function.update hi.next c (hi.hash h)
      hash := Function.update hi.hash h (some c) }, c)

def hashidFull (hi : Hashid) : Int := if hi.count = hi.cap then 1 else 0

structure Buckets (hi : Hashid) (chain : Nat → List Nat) : Prop where
  listed : ∀ h, Chain hi.next (hi.hash h) (chain h)
  used : ∀ h c, c ∈ chain h ↔ c < hi.cap ∧ hi.id c ≠ -1 ∧ hi.bucket (hi.id c) = h
  free : ∀ c < hi.cap, hi.id c = -1 → hi.next c = none

variable {hi : Hashid} {chain : Nat → List Nat}

theorem Buckets.length_le (buckets : Buckets hi chain) (h : Nat) :
    (chain h).length ≤ hi.cap := by
  have inside : chain h ⊆ List.range hi.cap := fun c member =>
    List.mem_range.mpr ((buckets.used h c).mp member).1
  simpa using ((buckets.listed h).nodup.subperm inside).length_le

theorem lookupLoop_some (hi : Hashid) (id : Int) (fuel : Nat) {head : Option Nat}
    {nodes : List Nat} (listed : Chain hi.next head nodes) (rounds : nodes.length < fuel) :
    (∃ c ∈ nodes, hi.id c = id ∧ lookupLoop hi id fuel head = some (c : Int)) ∨
      ((∀ c ∈ nodes, hi.id c ≠ id) ∧ lookupLoop hi id fuel head = some (-1)) := by
  induction listed generalizing fuel with
  | nil =>
    obtain ⟨fuel, rfl⟩ := Nat.exists_eq_succ_of_ne_zero (Nat.ne_zero_of_lt rounds)
    exact .inr ⟨fun c inside => absurd inside List.not_mem_nil, rfl⟩
  | @cons c rest tail ih =>
    obtain ⟨fuel, rfl⟩ := Nat.exists_eq_succ_of_ne_zero (Nat.ne_zero_of_lt rounds)
    by_cases same : hi.id c = id
    · exact .inl ⟨c, List.mem_cons_self, same, if_pos same⟩
    · have step : lookupLoop hi id (fuel + 1) (some c) = lookupLoop hi id fuel (hi.next c) :=
        if_neg same
      rw [Nat.succ_eq_add_one, step]
      rcases ih fuel (Nat.lt_of_succ_lt_succ rounds) with ⟨d, inside, found, ran⟩ | ⟨absent, ran⟩
      · exact .inl ⟨d, List.mem_cons_of_mem _ inside, found, ran⟩
      · exact .inr ⟨List.forall_mem_cons.mpr ⟨same, absent⟩, ran⟩

theorem removeLoop_some (hi : Hashid) (id : Int) (fuel c : Nat) (rest : List Nat)
    (listed : Chain hi.next (some c) (c :: rest)) (rounds : rest.length < fuel) :
    (∃ before node temp after, c :: rest = before ++ node :: temp :: after ∧ hi.id temp = id ∧
      removeLoop hi id fuel c = some (clearNode
        { hi with next := Function.update hi.next node (hi.next temp) } temp)) ∨
      ((∀ d ∈ rest, hi.id d ≠ id) ∧ removeLoop hi id fuel c = some (hi, -1)) := by
  induction fuel generalizing c rest with
  | zero => exact absurd rounds (Nat.not_lt_zero _)
  | succ fuel ih =>
    cases listed with
    | cons tail =>
      cases link : hi.next c with
      | none =>
        rw [link] at tail
        cases tail
        refine .inr ⟨fun d inside => absurd inside List.not_mem_nil, ?_⟩
        simp only [removeLoop, link]
      | some temp =>
        rw [link] at tail
        obtain ⟨others, rfl⟩ : ∃ others, rest = temp :: others := by
          cases tail
          exact ⟨_, rfl⟩
        by_cases same : hi.id temp = id
        · refine .inl ⟨[], c, temp, others, rfl, same, ?_⟩
          simp only [removeLoop, link, if_pos same]
        · have step : removeLoop hi id (fuel + 1) c = removeLoop hi id fuel temp := by
            simp only [removeLoop, link, if_neg same]
          rw [step]
          rcases ih temp others tail (Nat.lt_of_succ_lt_succ rounds) with
            ⟨before, node, last, after, parts, found, ran⟩ | ⟨absent, ran⟩
          · exact .inl ⟨c :: before, node, last, after, by rw [parts]; rfl, found, ran⟩
          · exact .inr ⟨List.forall_mem_cons.mpr ⟨same, absent⟩, ran⟩

structure Unlinked (hi : Hashid) (chain : Nat → List Nat) (c : Nat) (next : Nat → Option Nat)
    (hash : Nat → Option Nat) : Prop where
  listed : ∀ h, Chain next (hash h) ((chain h).erase c)
  kept : ∀ d, hi.next d = none → d ≠ c → next d = none

theorem Buckets.clear (buckets : Buckets hi chain) {c : Nat} {next hash : Nat → Option Nat}
    (unlinked : Unlinked hi chain c next hash) :
    Buckets (clearNode { hi with next, hash } c).1 (fun h => (chain h).erase c) := by
  have outside (h : Nat) : c ∉ (chain h).erase c :=
    List.Nodup.not_mem_erase (buckets.listed h).nodup
  constructor
  case listed =>
    intro h
    exact (unlinked.listed h).update c none (outside h)
  case used =>
    intro h d
    change d ∈ (chain h).erase c ↔ d < hi.cap ∧ Function.update hi.id c (-1) d ≠ -1 ∧
      hi.bucket (Function.update hi.id c (-1) d) = h
    by_cases same : d = c
    · subst same
      simp [outside h]
    · rw [List.mem_erase_of_ne same, buckets.used h d, Function.update_of_ne same]
  case free =>
    intro d within free
    change Function.update next c none d = none
    change Function.update hi.id c (-1) d = -1 at free
    by_cases same : d = c
    · subst same
      rw [Function.update_self]
    · rw [Function.update_of_ne same] at free ⊢
      exact unlinked.kept d (buckets.free d within free) same

theorem Buckets.apart (buckets : Buckets hi chain) {h other c : Nat} (inside : c ∈ chain h)
    (member : c ∈ chain other) : h = other :=
  ((buckets.used h c).mp inside).2.2.symm.trans ((buckets.used other c).mp member).2.2

theorem Buckets.unlink_first (buckets : Buckets hi chain) {h c : Nat} {rest : List Nat}
    (parts : chain h = c :: rest) :
    Unlinked hi chain c hi.next (Function.update hi.hash h (hi.next c)) := by
  refine ⟨fun other => ?_, fun d last _ => last⟩
  by_cases same : other = h
  · subst same
    have listed := buckets.listed other
    rw [parts] at listed
    rw [Function.update_self, parts, List.erase_cons_head]
    generalize hi.hash other = head at listed
    cases listed with
    | cons tail => exact tail
  · have outside : c ∉ chain other := fun member =>
      same (buckets.apart member (by rw [parts]; exact List.mem_cons_self))
    rw [Function.update_of_ne same, List.erase_of_not_mem outside]
    exact buckets.listed other

theorem Buckets.unlink_later (buckets : Buckets hi chain) {h node c : Nat}
    {before after : List Nat} (parts : chain h = before ++ node :: c :: after) :
    Unlinked hi chain c (Function.update hi.next node (hi.next c)) hi.hash := by
  have listed := buckets.listed h
  have once := listed.nodup
  rw [parts] at listed once
  obtain ⟨-, later, apart⟩ := List.nodup_append.mp once
  have different : node ≠ c := fun same =>
    (List.nodup_cons.mp later).1 (same ▸ List.mem_cons_self)
  have link : hi.next node = some c := Chain.link before listed
  constructor
  · intro other
    by_cases same : other = h
    · subst same
      have without : (before ++ node :: c :: after).erase c = before ++ node :: after := by
        rw [List.erase_append_right _ fun inside => apart c inside c (by simp) rfl,
          List.erase_cons_tail (by simpa using different), List.erase_cons_head]
      rw [parts, without]
      exact Chain.unlink before listed
    · have outside (d : Nat) (inside : d ∈ chain h) : d ∉ chain other := fun member =>
        same (buckets.apart member inside)
      rw [List.erase_of_not_mem (outside c (by simp [parts]))]
      exact (buckets.listed other).update node _ (outside node (by simp [parts]))
  · intro d last _
    have other : d ≠ node := by
      rintro rfl
      rw [link] at last
      contradiction
    rwa [Function.update_of_ne other]

theorem Buckets.remove (buckets : Buckets hi chain) (id : Int) :
    (∃ c next hash, c < hi.cap ∧ hi.id c = id ∧ id ≠ -1 ∧
      hashidRemove hi id = some (clearNode { hi with next, hash } c) ∧
      Buckets (clearNode { hi with next, hash } c).1 (fun h => (chain h).erase c)) ∨
      ((∀ c < hi.cap, hi.id c = id → id = -1) ∧ hashidRemove hi id = some (hi, -1)) := by
  have listed := buckets.listed (hi.bucket id)
  have absent (missing : ∀ c ∈ chain (hi.bucket id), hi.id c ≠ id) :
      ∀ c < hi.cap, hi.id c = id → id = -1 := by
    intro c within same
    by_contra used
    refine missing c ((buckets.used _ c).mpr ⟨within, ?_, ?_⟩) same
    · rwa [same]
    · rw [same]
  have present {c : Nat} (inside : c ∈ chain (hi.bucket id)) (same : hi.id c = id) :
      c < hi.cap ∧ id ≠ -1 := by
    obtain ⟨within, used, -⟩ := (buckets.used _ c).mp inside
    exact ⟨within, same ▸ used⟩
  cases head : hi.hash (hi.bucket id) with
  | none =>
    rw [head] at listed
    have empty : chain (hi.bucket id) = [] := by
      generalize chain (hi.bucket id) = nodes at listed
      cases listed
      rfl
    refine .inr ⟨absent fun c inside => ?_, ?_⟩
    · rw [empty] at inside
      contradiction
    · simp only [hashidRemove, head]
  | some c =>
    rw [head] at listed
    obtain ⟨rest, parts⟩ : ∃ rest, chain (hi.bucket id) = c :: rest := by
      generalize chain (hi.bucket id) = nodes at listed
      cases listed
      exact ⟨_, rfl⟩
    have inside : c ∈ chain (hi.bucket id) := by
      rw [parts]
      exact List.mem_cons_self
    by_cases same : hi.id c = id
    · obtain ⟨within, used⟩ := present inside same
      refine .inl ⟨c, _, _, within, same, used, ?_, buckets.clear (buckets.unlink_first parts)⟩
      simp only [hashidRemove, head, if_pos same]
    · have step : hashidRemove hi id = removeLoop hi id (hi.cap + 1) c := by
        simp only [hashidRemove, head, if_neg same]
      rw [step]
      have rounds := buckets.length_le (hi.bucket id)
      rw [parts, List.length_cons] at rounds
      rw [parts] at listed
      rcases removeLoop_some hi id (hi.cap + 1) c rest listed (by omega) with
        ⟨before, node, temp, after, cut, found, ran⟩ | ⟨missing, ran⟩
      · have whole := parts.trans cut
        obtain ⟨within, used⟩ := present (by rw [whole]; simp) found
        exact .inl ⟨temp, _, _, within, found, used, ran,
          buckets.clear (buckets.unlink_later whole)⟩
      · refine .inr ⟨absent ?_, ran⟩
        rw [parts]
        exact List.forall_mem_cons.mpr ⟨same, missing⟩

theorem Buckets.lookup (buckets : Buckets hi chain) (id : Int) :
    (∃ c, c < hi.cap ∧ hi.id c = id ∧ id ≠ -1 ∧ hashidLookup hi id = some (c : Int)) ∨
      ((∀ c < hi.cap, hi.id c = id → id = -1) ∧ hashidLookup hi id = some (-1)) := by
  have rounds := buckets.length_le (hi.bucket id)
  rcases lookupLoop_some hi id (hi.cap + 1) (buckets.listed (hi.bucket id)) (by omega) with
    ⟨c, inside, same, ran⟩ | ⟨missing, ran⟩
  · obtain ⟨within, used, -⟩ := (buckets.used _ c).mp inside
    exact .inl ⟨c, within, same, same ▸ used, ran⟩
  · refine .inr ⟨fun c within same => ?_, ran⟩
    by_contra used
    refine missing c ((buckets.used _ c).mpr ⟨within, ?_, ?_⟩) same
    · rwa [same]
    · rw [same]

theorem probeLoop_some (hi : Hashid) (id : Int) (positive : 0 ≤ id) (left i : Nat)
    (meets : ∃ j, i ≤ j ∧ j < i + left ∧ id + j < 2 ^ 31 ∧
      hi.id ((j + id) % hi.cap).toNat = -1) (cap : 0 < hi.cap) :
    ∃ c, probeLoop hi id left i = some (some c) ∧ c < hi.cap ∧ hi.id c = -1 := by
  induction left generalizing i with
  | zero =>
    obtain ⟨j, low, high, -⟩ := meets
    omega
  | succ left ih =>
    obtain ⟨j, low, high, fits, free⟩ := meets
    have sum : arith (i + id) = some (i + id) := arith_eq (by omega) (by omega)
    have modulo : ((i : Int) + id).tmod hi.cap = (i + id) % hi.cap :=
      Int.tmod_eq_emod_of_nonneg (by omega)
    have low_ : 0 ≤ ((i : Int) + id) % hi.cap := Int.emod_nonneg _ (by omega)
    have high_ : ((i : Int) + id) % hi.cap < hi.cap := Int.emod_lt_of_pos _ (by omega)
    simp only [probeLoop, sum, Option.bind_eq_bind, Option.bind_some, modulo]
    rw [if_neg (by omega)]
    by_cases here : hi.id (((i : Int) + id) % hi.cap).toNat = -1
    · rw [if_pos here]
      exact ⟨_, rfl, by omega, here⟩
    · rw [if_neg here]
      have later : i ≠ j := by
        rintro rfl
        exact here free
      exact ih (i + 1) ⟨j, by omega, by omega, fits, free⟩

theorem probeLoop_free (hi : Hashid) (id : Int) (positive : 0 ≤ id) (left i c : Nat)
    (found : probeLoop hi id left i = some (some c)) :
    ∃ j, i ≤ j ∧ j < i + left ∧ id + j < 2 ^ 31 ∧ hi.id ((j + id) % hi.cap).toNat = -1 := by
  induction left generalizing i with
  | zero => exact absurd (Option.some.inj found) (Option.some_ne_none c).symm
  | succ left ih =>
    simp only [probeLoop, Option.bind_eq_bind, Option.bind_eq_some_iff] at found
    obtain ⟨sum, done, found⟩ := found
    obtain ⟨rfl, -, high⟩ := arith_some done
    have modulo : ((i : Int) + id).tmod hi.cap = (i + id) % hi.cap :=
      Int.tmod_eq_emod_of_nonneg (by omega)
    rw [modulo] at found
    split at found
    · contradiction
    · split at found
      · rename_i here
        exact ⟨i, le_rfl, by omega, by omega, here⟩
      · obtain ⟨j, low, high, rest⟩ := ih (i + 1) found
        exact ⟨j, by omega, by omega, rest⟩

def insertNode (hi : Hashid) (id : Int) (c : Nat) : Hashid :=
  { hi with
    count := hi.count + 1
    id := Function.update hi.id c id
    next := Function.update hi.next c (hi.hash (hi.bucket id))
    hash := Function.update hi.hash (hi.bucket id) (some c) }

theorem Buckets.insertNode (buckets : Buckets hi chain) {id : Int} {c : Nat} (within : c < hi.cap)
    (free : hi.id c = -1) (used : id ≠ -1) :
    Buckets (Gate.insertNode hi id c)
      (Function.update chain (hi.bucket id) (c :: chain (hi.bucket id))) := by
  have outside (h : Nat) : c ∉ chain h := fun inside =>
    ((buckets.used h c).mp inside).2.1 free
  constructor
  case listed =>
    intro h
    have kept := (buckets.listed h).update c (hi.hash (hi.bucket id)) (outside h)
    simp only [Gate.insertNode]
    by_cases same : h = hi.bucket id
    · subst same
      rw [Function.update_self, Function.update_self]
      refine .cons ?_
      rwa [Function.update_self]
    · rwa [Function.update_of_ne same, Function.update_of_ne same]
  case used =>
    intro h d
    change d ∈ Function.update chain (hi.bucket id) (c :: chain (hi.bucket id)) h ↔
      d < hi.cap ∧ Function.update hi.id c id d ≠ -1 ∧
        hi.bucket (Function.update hi.id c id d) = h
    by_cases node : d = c
    · subst node
      rw [Function.update_self]
      by_cases same : h = hi.bucket id
      · subst same
        simp [within, used]
      · rw [Function.update_of_ne same]
        exact iff_of_false (outside h) fun both => same both.2.2.symm
    · rw [Function.update_of_ne node, ← buckets.used h d]
      by_cases same : h = hi.bucket id
      · subst same
        rw [Function.update_self, List.mem_cons, or_iff_right node]
      · rw [Function.update_of_ne same]
  case free =>
    intro d within_ free_
    change Function.update hi.id c id d = -1 at free_
    change Function.update hi.next c (hi.hash (hi.bucket id)) d = none
    by_cases node : d = c
    · subst node
      rw [Function.update_self] at free_
      exact absurd free_ used
    · rw [Function.update_of_ne node] at free_ ⊢
      exact buckets.free d within_ free_

theorem Buckets.insert (buckets : Buckets hi chain) {id : Int} (positive : 0 ≤ id)
    (meets : ∃ j < hi.cap, id + j < 2 ^ 31 ∧ hi.id ((j + id) % hi.cap).toNat = -1) :
    ∃ c, c < hi.cap ∧ hi.id c = -1 ∧
      hashidInsert hi id = some (Gate.insertNode hi id c, (c : Int)) := by
  obtain ⟨j, less, rest⟩ := meets
  obtain ⟨c, found, within, free⟩ := probeLoop_some hi id positive hi.cap 0
    ⟨j, Nat.zero_le _, by omega, rest⟩ (by omega)
  refine ⟨c, within, free, ?_⟩
  have last := buckets.free c within free
  simp only [hashidInsert, found, last, Option.bind_eq_bind, Option.bind_some, ne_eq,
    not_true_eq_false, if_false]
  rfl

theorem hashidInsert_free {id reply : Int} {next : Hashid} (positive : 0 ≤ id)
    (ran : hashidInsert hi id = some (next, reply)) :
    ∃ j < hi.cap, id + j < 2 ^ 31 ∧ hi.id ((j + id) % hi.cap).toNat = -1 := by
  simp only [hashidInsert, Option.bind_eq_bind, Option.bind_eq_some_iff] at ran
  obtain ⟨found, probed, c, rfl, -⟩ := ran
  obtain ⟨j, -, less, rest⟩ := probeLoop_free hi id positive hi.cap 0 c probed
  exact ⟨j, by omega, rest⟩

end Pskynet.Gate
