import Pskynet.Gate.Hashid

set_option autoImplicit false

namespace Pskynet.Gate

open CInt

inductive HashidCall where
  | insert (id : Int)
  | remove (id : Int)
  | lookup (id : Int)
  | full

def serveHashid (hi : Hashid) : HashidCall → Option (Hashid × Int)
  | .insert id => hashidInsert hi id
  | .remove id => hashidRemove hi id
  | .lookup id => (hashidLookup hi id).map fun reply => (hi, reply)
  | .full => some (hi, hashidFull hi)

def keepIds (ids : List Int) : HashidCall → Option (List Int)
  | .insert id => some (id :: ids)
  | .remove id => some (ids.filter fun other => other ≠ id)
  | .lookup _ => some ids
  | .full => some ids

def Proper (cap : Nat) (ids : List Int) : HashidCall → Prop
  | .insert id => 0 ≤ id ∧ id < 2 ^ 31 ∧ id ∉ ids ∧ ids.length < cap
  | .remove _ => True
  | .lookup _ => True
  | .full => True

instance (cap : Nat) (ids : List Int) (call : HashidCall) : Decidable (Proper cap ids call) := by
  cases call <;> unfold Proper <;> infer_instance

abbrev Given : Type := List (Int × Nat)

def Given.remember (present : Given) : HashidCall → Int → Given
  | .insert id, reply => (id, reply.toNat) :: present
  | .remove id, _ => present.filter fun entry => entry.1 ≠ id
  | .lookup _, _ => present
  | .full, _ => present

def Given.Index (present : Given) (id reply : Int) : Prop :=
  (∀ c, (id, c) ∈ present → reply = (c : Int)) ∧ ((∀ c, (id, c) ∉ present) → reply = -1)

def Given.Answers (cap : Nat) (present : Given) : HashidCall → Int → Prop
  | .insert _, reply => 0 ≤ reply ∧ reply < cap ∧ ∀ other, (other, reply.toNat) ∉ present
  | .remove id, reply => present.Index id reply
  | .lookup id, reply => present.Index id reply
  | .full, reply => reply = if present.length = cap then 1 else 0

structure Table where
  hi : Hashid
  present : Given

def Right (cap : Nat) : Table → List HashidCall → Prop
  | _, [] => True
  | world, call :: rest => ∃ next reply, serveHashid world.hi call = some (next, reply) ∧
      world.present.Answers cap call reply ∧
      next.count = (world.present.remember call reply).length ∧
      Right cap { hi := next, present := world.present.remember call reply } rest

def stepHashid (world : Table) (call : HashidCall) : Option Table :=
  (serveHashid world.hi call).map fun (next, reply) =>
    { hi := next, present := world.present.remember call reply }

def Meets (cap : Nat) (world : Table) : HashidCall → Prop
  | .insert id => ∃ j < cap, id + j < 2 ^ 31 ∧
      ((j + id) % cap).toNat ∉ world.present.map Prod.snd
  | .remove _ => True
  | .lookup _ => True
  | .full => True

instance (cap : Nat) (world : Table) (call : HashidCall) : Decidable (Meets cap world call) := by
  cases call <;> unfold Meets <;> infer_instance

structure Maps (cap : Nat) (world : Table) (ids : List Int) : Prop where
  buckets : ∃ chain, Buckets world.hi chain
  capacity : world.hi.cap = cap
  stored : ∀ id c, (id, c) ∈ world.present ↔ c < cap ∧ world.hi.id c = id ∧ id ≠ -1
  keys : world.present.map Prod.fst = ids
  nodup : ids.Nodup
  socket : ∀ id ∈ ids, 0 ≤ id
  count : world.hi.count = world.present.length

variable {cap : Nat} {world : Table} {ids : List Int}

theorem Maps.free_iff (maps : Maps cap world ids) {c : Nat} (within : c < cap) :
    c ∉ world.present.map Prod.snd ↔ world.hi.id c = -1 := by
  constructor
  · intro absent
    by_contra used
    exact absent (List.mem_map.mpr ⟨(world.hi.id c, c),
      (maps.stored _ c).mpr ⟨within, rfl, used⟩, rfl⟩)
  · intro free inside
    obtain ⟨⟨id, d⟩, member, rfl⟩ := List.mem_map.mp inside
    obtain ⟨-, same, used⟩ := (maps.stored id d).mp member
    exact used (same.symm.trans free)

theorem Maps.meets_iff (maps : Maps cap world ids) (id : Int) :
    Meets cap world (.insert id) ↔
      ∃ j < world.hi.cap, id + j < 2 ^ 31 ∧ world.hi.id ((j + id) % world.hi.cap).toNat = -1 := by
  rw [maps.capacity]
  refine exists_congr fun j => and_congr_right fun less => and_congr_right fun _ => ?_
  have low : 0 ≤ ((j : Int) + id) % cap := Int.emod_nonneg _ (by omega)
  have high : ((j : Int) + id) % cap < cap := Int.emod_lt_of_pos _ (by omega)
  exact maps.free_iff (by omega)

theorem Maps.unique (maps : Maps cap world ids) {id : Int} {c d : Nat}
    (one : (id, c) ∈ world.present) (two : (id, d) ∈ world.present) : c = d := by
  have once : (world.present.map Prod.fst).Nodup := maps.keys ▸ maps.nodup
  exact congrArg Prod.snd (List.inj_on_of_nodup_map once one two rfl)

theorem Maps.index (maps : Maps cap world ids) {id reply : Int}
    (found : (∃ c, c < world.hi.cap ∧ world.hi.id c = id ∧ id ≠ -1 ∧ reply = (c : Int)) ∨
      ((∀ c < world.hi.cap, world.hi.id c = id → id = -1) ∧ reply = -1)) :
    world.present.Index id reply := by
  rcases found with ⟨c, within, same, used, rfl⟩ | ⟨missing, rfl⟩
  · have inside : (id, c) ∈ world.present :=
      (maps.stored id c).mpr ⟨maps.capacity ▸ within, same, used⟩
    refine ⟨fun d member => ?_, fun absent => absurd inside (absent c)⟩
    rw [maps.unique member inside]
  · refine ⟨fun c member => ?_, fun _ => rfl⟩
    obtain ⟨within, same, used⟩ := (maps.stored id c).mp member
    exact absurd (missing c (maps.capacity ▸ within) same) used

theorem Maps.insert (maps : Maps cap world ids) {id : Int} (proper : Proper cap ids (.insert id))
    (meets : Meets cap world (.insert id)) :
    ∃ next reply, serveHashid world.hi (.insert id) = some (next, reply) ∧
      world.present.Answers cap (.insert id) reply ∧
      Maps cap { hi := next, present := world.present.remember (.insert id) reply } (id :: ids) := by
  obtain ⟨positive, -, fresh, -⟩ := proper
  obtain ⟨chain, buckets⟩ := maps.buckets
  obtain ⟨c, within, free, ran⟩ := buckets.insert positive ((maps.meets_iff id).mp meets)
  have used : id ≠ -1 := by omega
  have vacant : c ∉ world.present.map Prod.snd :=
    (maps.free_iff (maps.capacity ▸ within)).mpr free
  have capacity := maps.capacity
  refine ⟨_, _, ran, ⟨by omega, by omega, fun other inside => ?_⟩, ?_⟩
  · exact vacant (List.mem_map.mpr ⟨(other, c), inside, rfl⟩)
  · constructor
    case buckets => exact ⟨_, buckets.insertNode within free used⟩
    case capacity => exact maps.capacity
    case stored =>
      intro other d
      change (other, d) ∈ (id, c) :: world.present ↔
        d < cap ∧ Function.update world.hi.id c id d = other ∧ other ≠ -1
      rw [List.mem_cons, Prod.mk.injEq, maps.stored other d]
      by_cases same : d = c
      · subst same
        rw [Function.update_self]
        constructor
        · rintro (⟨rfl, -⟩ | ⟨-, rfl, used_⟩)
          · exact ⟨by omega, rfl, used⟩
          · exact absurd free used_
        · rintro ⟨-, rfl, -⟩
          exact .inl ⟨rfl, rfl⟩
      · rw [Function.update_of_ne same]
        exact or_iff_right fun both => same both.2
    case keys =>
      change id :: world.present.map Prod.fst = id :: ids
      rw [maps.keys]
    case nodup => exact List.nodup_cons.mpr ⟨fresh, maps.nodup⟩
    case socket => exact List.forall_mem_cons.mpr ⟨positive, maps.socket⟩
    case count =>
      change world.hi.count + 1 = ((world.present.length + 1 : Nat) : Int)
      rw [maps.count]
      rfl

theorem Maps.remove (maps : Maps cap world ids) (id : Int) :
    ∃ next reply, serveHashid world.hi (.remove id) = some (next, reply) ∧
      world.present.Answers cap (.remove id) reply ∧
      Maps cap { hi := next, present := world.present.remember (.remove id) reply }
        (ids.filter fun other => other ≠ id) := by
  obtain ⟨chain, buckets⟩ := maps.buckets
  have capacity := maps.capacity
  have keys : (world.present.filter fun entry => entry.1 ≠ id).map Prod.fst =
      ids.filter fun other => other ≠ id := by
    rw [← maps.keys, List.filter_map]
    rfl
  rcases buckets.remove id with ⟨c, next, hash, within, same, used, ran, cleared⟩ | ⟨missing, ran⟩
  · have inside : (id, c) ∈ world.present := (maps.stored id c).mpr ⟨by omega, same, used⟩
    refine ⟨_, _, ran, maps.index (.inl ⟨c, within, same, used, rfl⟩), ?_⟩
    constructor
    case buckets => exact ⟨_, cleared⟩
    case capacity => exact maps.capacity
    case stored =>
      intro other d
      change (other, d) ∈ world.present.filter (fun entry => entry.1 ≠ id) ↔
        d < cap ∧ Function.update world.hi.id c (-1) d = other ∧ other ≠ -1
      rw [List.mem_filter, maps.stored other d]
      by_cases node : d = c
      · subst node
        rw [Function.update_self, same]
        simp
        tauto
      · rw [Function.update_of_ne node]
        have different (member : d < cap ∧ world.hi.id d = other ∧ other ≠ -1) : other ≠ id := by
          rintro rfl
          exact node (maps.unique ((maps.stored other d).mpr member) inside)
        exact ⟨fun both => both.1, fun member => ⟨member, by simpa using different member⟩⟩
    case keys => exact keys
    case nodup => exact maps.nodup.filter _
    case socket => exact fun other member => maps.socket other (List.mem_of_mem_filter member)
    case count =>
      have member : id ∈ ids := by
        rw [← maps.keys]
        exact List.mem_map_of_mem inside
      have erased : (ids.filter fun other => other ≠ id) = ids.erase id := by
        rw [maps.nodup.erase_eq_filter]
        refine List.filter_congr fun other _ => ?_
        by_cases same : other = id
        · simp [same]
        · simp [same]
      have size : (world.present.filter fun entry => entry.1 ≠ id).length + 1 =
          world.present.length := by
        have all : world.present.length = ids.length := by rw [← maps.keys, List.length_map]
        have positive := List.length_pos_of_mem member
        rw [← List.length_map (f := Prod.fst), keys, erased, List.length_erase_of_mem member, all]
        omega
      change world.hi.count - 1 = (world.present.filter fun entry => entry.1 ≠ id).length
      rw [maps.count]
      omega
  · have outside : ∀ d, (id, d) ∉ world.present := by
      intro d member
      obtain ⟨less, same, used⟩ := (maps.stored id d).mp member
      exact used (missing d (by omega) same)
    have kept : world.present.filter (fun entry => entry.1 ≠ id) = world.present := by
      refine List.filter_eq_self.mpr fun entry member => ?_
      simpa using fun same : entry.1 = id => outside entry.2 (same ▸ member)
    refine ⟨_, _, ran, maps.index (.inr ⟨missing, rfl⟩), ?_⟩
    have same : ids.filter (fun other => other ≠ id) = ids := by rw [← keys, kept, maps.keys]
    rw [same]
    change Maps cap { hi := world.hi, present := world.present.filter _ } ids
    rw [kept]
    exact maps

theorem Maps.lookup (maps : Maps cap world ids) (id : Int) :
    ∃ reply, serveHashid world.hi (.lookup id) = some (world.hi, reply) ∧
      world.present.Answers cap (.lookup id) reply := by
  obtain ⟨chain, buckets⟩ := maps.buckets
  rcases buckets.lookup id with ⟨c, within, same, used, ran⟩ | ⟨missing, ran⟩
  · exact ⟨c, by simp only [serveHashid, ran, Option.map_some],
      maps.index (.inl ⟨c, within, same, used, rfl⟩)⟩
  · exact ⟨-1, by simp only [serveHashid, ran, Option.map_some],
      maps.index (.inr ⟨missing, rfl⟩)⟩

theorem Maps.serve (maps : Maps cap world ids) (call : HashidCall) (proper : Proper cap ids call)
    (meets : Meets cap world call) :
    ∃ next reply keys, serveHashid world.hi call = some (next, reply) ∧
      world.present.Answers cap call reply ∧ keepIds ids call = some keys ∧
      Maps cap { hi := next, present := world.present.remember call reply } keys := by
  cases call with
  | insert id =>
    obtain ⟨next, reply, ran, answers, kept⟩ := maps.insert proper meets
    exact ⟨next, reply, _, ran, answers, rfl, kept⟩
  | remove id =>
    obtain ⟨next, reply, ran, answers, kept⟩ := maps.remove id
    exact ⟨next, reply, _, ran, answers, rfl, kept⟩
  | lookup id =>
    obtain ⟨reply, ran, answers⟩ := maps.lookup id
    exact ⟨world.hi, reply, ids, ran, answers, rfl, maps⟩
  | full =>
    refine ⟨world.hi, _, ids, rfl, ?_, rfl, maps⟩
    simp only [Given.Answers, hashidFull, maps.count, maps.capacity, Nat.cast_inj]

theorem Maps.meets (maps : Maps cap world ids) (call : HashidCall) (proper : Proper cap ids call)
    {next : Hashid} {reply : Int} (ran : serveHashid world.hi call = some (next, reply)) :
    Meets cap world call := by
  cases call with
  | insert id => exact (maps.meets_iff id).mpr (hashidInsert_free proper.1 ran)
  | remove id => trivial
  | lookup id => trivial
  | full => trivial

theorem Maps.right_iff (maps : Maps cap world ids) (calls : List HashidCall)
    (proper : Transition.Along keepIds (Proper cap) ids calls) :
    Right cap world calls ↔ Transition.Along stepHashid (Meets cap) world calls := by
  induction calls generalizing world ids with
  | nil => exact Iff.rfl
  | cons call rest ih =>
    obtain ⟨first, others⟩ := proper
    simp only [Right, Transition.Along]
    constructor
    · rintro ⟨next, reply, ran, -, -, right⟩
      have meets := maps.meets call first ran
      obtain ⟨next_, reply_, keys, ran_, -, kept, after⟩ := maps.serve call first meets
      obtain ⟨rfl, rfl⟩ := Prod.mk.inj (Option.some.inj (ran.symm.trans ran_))
      rw [kept] at others
      refine ⟨meets, ?_⟩
      simp only [stepHashid, ran, Option.map_some]
      exact (ih after others).mp right
    · rintro ⟨meets, along⟩
      obtain ⟨next, reply, keys, ran, answers, kept, after⟩ := maps.serve call first meets
      rw [kept] at others
      simp only [stepHashid, ran, Option.map_some] at along
      exact ⟨next, reply, ran, answers, after.count, (ih after others).mpr along⟩

theorem growHashcap_some (max : Int) (small : max ≤ 2 ^ 30) (fuel k : Nat) (below : k ≤ 30)
    (rounds : 30 - k < fuel) : ∃ hashcap, growHashcap max fuel (2 ^ k) = some hashcap := by
  induction fuel generalizing k with
  | zero => exact absurd rounds (Nat.not_lt_zero _)
  | succ fuel ih =>
    simp only [growHashcap]
    by_cases less : (2 : Int) ^ k < max
    · have smaller : k < 30 := by
        by_contra large
        obtain rfl : k = 30 := by omega
        omega
      have power : (2 : Int) ^ (k + 1) ≤ 2 ^ 30 :=
        pow_le_pow_right₀ (by omega) smaller
      have positive : (0 : Int) < 2 ^ (k + 1) := by positivity
      rw [if_pos less, ← pow_succ, arith_eq (by omega) (by omega), Option.bind_some]
      exact ih (k + 1) smaller (by omega)
    · rw [if_neg less]
      exact ⟨_, rfl⟩

theorem growHashcap_none (max : Int) (large : 2 ^ 30 < max) (fuel k : Nat) (below : k ≤ 30) :
    growHashcap max fuel (2 ^ k) = none := by
  induction fuel generalizing k with
  | zero => rfl
  | succ fuel ih =>
    have power : (2 : Int) ^ k ≤ 2 ^ 30 := pow_le_pow_right₀ (by omega) below
    simp only [growHashcap]
    rw [if_pos (by omega), ← pow_succ]
    rcases Nat.lt_or_ge k 30 with smaller | last
    · have next : (2 : Int) ^ (k + 1) ≤ 2 ^ 30 := pow_le_pow_right₀ (by omega) smaller
      have positive : (0 : Int) < 2 ^ (k + 1) := by positivity
      rw [arith_eq (by omega) (by omega), Option.bind_some]
      exact ih (k + 1) smaller
    · obtain rfl : k = 30 := by omega
      rw [arith_none (by omega), Option.bind_none]

theorem hashidInit_maps (cap : Nat) (small : cap ≤ 2 ^ 30) :
    ∃ hi, hashidInit cap = some hi ∧ hi.count = 0 ∧ Maps cap { hi, present := [] } [] := by
  obtain ⟨hashcap, grown⟩ := growHashcap_some cap (by exact_mod_cast small) 32 4 (by omega)
    (by omega)
  have start : growHashcap cap 32 16 = some hashcap := grown
  have started : hashidInit cap = some
      { hashmod := hashcap.toNat - 1, cap, count := 0, id := fun _ => -1, next := fun _ => none
        hash := fun _ => none } := by
    simp only [hashidInit, start, Option.bind_eq_bind, Option.bind_some]
  refine ⟨_, started, rfl, ?_⟩
  constructor
  case buckets =>
    refine ⟨fun _ => [], fun _ => .nil, fun h c => ?_, fun c _ _ => rfl⟩
    exact iff_of_false List.not_mem_nil fun both => both.2.1 rfl
  case capacity => rfl
  case stored =>
    intro id c
    refine iff_of_false List.not_mem_nil ?_
    rintro ⟨-, same, used⟩
    exact used same.symm
  case keys => rfl
  case nodup => exact List.nodup_nil
  case socket => exact fun id inside => absurd inside List.not_mem_nil
  case count => rfl

theorem hashid_iff (cap : Nat) (calls : List HashidCall)
    (proper : Transition.Along keepIds (Proper cap) [] calls) :
    (∃ hi, hashidInit cap = some hi ∧ hi.count = 0 ∧ Right cap { hi, present := [] } calls) ↔
      cap ≤ 2 ^ 30 ∧ ∀ hi, hashidInit cap = some hi →
        Transition.Along stepHashid (Meets cap) { hi, present := [] } calls := by
  by_cases small : cap ≤ 2 ^ 30
  · obtain ⟨hi, started, count, maps⟩ := hashidInit_maps cap small
    have right := maps.right_iff calls proper
    constructor
    · rintro ⟨other, same, -, runs⟩
      obtain rfl := Option.some.inj (started.symm.trans same)
      refine ⟨small, fun other same => ?_⟩
      obtain rfl := Option.some.inj (started.symm.trans same)
      exact right.mp runs
    · rintro ⟨-, along⟩
      exact ⟨hi, started, count, right.mpr (along hi started)⟩
  · have failed : hashidInit cap = none := by
      have grown : growHashcap cap 32 16 = none :=
        growHashcap_none cap (by exact_mod_cast not_le.mp small) 32 4 (by omega)
      simp only [hashidInit, grown, Option.bind_eq_bind, Option.bind_none]
    refine iff_of_false ?_ fun both => small both.1
    rintro ⟨hi, started, -⟩
    rw [failed] at started
    contradiction

theorem hashid_mixed :
    (∃ hi, hashidInit 3 = some hi ∧ hi.count = 0 ∧ Right 3 { hi, present := [] }
      [.insert 4, .insert 7, .full, .remove 4, .lookup 7, .lookup 4, .insert 1]) ↔
      3 ≤ 2 ^ 30 ∧ ∀ hi, hashidInit 3 = some hi →
        Transition.Along stepHashid (Meets 3) { hi, present := [] }
          [.insert 4, .insert 7, .full, .remove 4, .lookup 7, .lookup 4, .insert 1] :=
  hashid_iff 3 _ (by decide)

theorem largest_id_overflows :
    Transition.Along keepIds (Proper 3) [] [.insert 1, .insert (2 ^ 31 - 1)] ∧
      ¬∃ hi, hashidInit 3 = some hi ∧ hi.count = 0 ∧
        Right 3 { hi, present := [] } [.insert 1, .insert (2 ^ 31 - 1)] := by
  refine ⟨by decide, ?_⟩
  have ran : ((hashidInit 3).bind fun hi => (serveHashid hi (.insert 1)).map fun both =>
      (serveHashid both.1 (.insert (2 ^ 31 - 1))).isNone) = some true := by decide
  rintro ⟨hi, started, -, next, reply, first, -, -, later, answer, second, -⟩
  have failed : serveHashid next (.insert (2 ^ 31 - 1)) = some (later, answer) := second
  rw [started, Option.bind_some, first, Option.map_some, failed] at ran
  exact absurd ran (by simp)

end Pskynet.Gate
