import Pskynet.Sharedata.Service

set_option autoImplicit false

namespace Pskynet.Sharedata

open Lua

def live (s : State) (obj : Nat) : Nat := if s.objmap obj = some false then 1 else 0

-- The counts of all objects that are left, where clients have `claims`.
structure Balanced (s : State) (claims : Nat → Nat) : Prop where
  pooled : ∀ key v, s.pool key = some v → s.objmap v.obj = some false
  distinct : ∀ key other v w, s.pool key = some v → s.pool other = some w → v.obj = w.obj →
    key = other
  fresh : ∀ obj, s.created ≤ obj → s.objmap obj = none ∧ s.refs obj = 0 ∧ obj ∉ s.deleted
  known : ∀ obj, obj < s.created → obj ∉ s.deleted → s.objmap obj ≠ none
  gone : ∀ obj ∈ s.deleted, s.objmap obj = none ∧ claims obj = 0
  counted : ∀ obj, obj ∉ s.deleted → s.refs obj = live s obj + claims obj

variable {host : Host} {s after : State} {claims : Nat → Nat} {name key : Scalar} {v : Entry}
  {obj : Nat}

theorem get_eq_some (found : s.get name = some v) :
    ∃ key, toKey name = .ok key ∧ s.pool key = some v := by
  unfold State.get at found
  cases is : toKey name with
  | error text =>
    rw [is] at found
    cases found
  | ok key =>
    rw [is] at found
    exact ⟨key, rfl, found⟩

theorem set_eq (is : toKey name = .ok key) (entry : Option Entry) (count : Option Count) :
    s.set name entry count = { s with
      pool := Function.update s.pool key entry
      poolCount := Function.update s.poolCount key count } := by
  simp [State.set, State.put, is, Except.map]

theorem start_balanced : Balanced .start fun _ => 0 where
  pooled := fun _ _ found => by cases found
  distinct := fun _ _ _ _ found => by cases found
  fresh := fun _ _ => ⟨rfl, rfl, List.not_mem_nil⟩
  known := fun _ small => absurd small (Nat.not_lt_zero _)
  gone := fun _ inside => absurd inside List.not_mem_nil
  counted := fun _ _ => rfl

namespace Balanced

theorem claims_zero (balanced : Balanced s claims) (new_ : s.created ≤ obj) : claims obj = 0 := by
  obtain ⟨missing, zero, outside⟩ := balanced.fresh obj new_
  have counted := balanced.counted obj outside
  rw [zero, live, missing] at counted
  simp at counted
  omega

theorem not_deleted (balanced : Balanced s claims) (claimed : 0 < claims obj) :
    obj ∉ s.deleted := by
  intro inside
  have none_ := (balanced.gone obj inside).2
  omega

theorem created_of_claimed (balanced : Balanced s claims) (claimed : 0 < claims obj) :
    obj < s.created := by
  by_contra new_
  have none_ := balanced.claims_zero (not_lt.mp new_)
  omega

theorem pooled_created (balanced : Balanced s claims) (found : s.pool key = some v) :
    v.obj < s.created ∧ v.obj ∉ s.deleted := by
  have mapped := balanced.pooled key v found
  refine ⟨?_, ?_⟩
  · by_contra new_
    cases mapped.symm.trans (balanced.fresh v.obj (not_lt.mp new_)).1
  · intro inside
    cases mapped.symm.trans (balanced.gone v.obj inside).1

theorem create (balanced : Balanced s claims) : Balanced s.create claims where
  pooled := by
    intro key v found
    have old := balanced.pooled_created found
    have apart : v.obj ≠ s.created := by omega
    simp only [State.create, Function.update_of_ne apart]
    exact balanced.pooled key v found
  distinct := balanced.distinct
  fresh := by
    intro obj new_
    have past : s.created + 1 ≤ obj := new_
    have apart : obj ≠ s.created := by omega
    simp only [State.create, Function.update_of_ne apart]
    exact balanced.fresh obj (by omega)
  known := by
    intro obj small outside
    by_cases here : obj = s.created
    · simp [State.create, here]
    · simp only [State.create, Function.update_of_ne here]
      have past : obj < s.created + 1 := small
      exact balanced.known obj (by omega) outside
  gone := by
    intro obj inside
    have apart : obj ≠ s.created := by
      rintro rfl
      exact (balanced.fresh _ le_rfl).2.2 inside
    simp only [State.create, Function.update_of_ne apart]
    exact balanced.gone obj inside
  counted := by
    intro obj outside
    by_cases here : obj = s.created
    · subst here
      simp [State.create, live, balanced.claims_zero le_rfl]
    · simp only [State.create, live, Function.update_of_ne here]
      exact balanced.counted obj outside

theorem put_new (balanced : Balanced s claims) (entry : Entry) (count : Option Count)
    (mapped : s.objmap entry.obj = some false)
    (apart : ∀ other v, s.pool other = some v → other ≠ key → v.obj ≠ entry.obj)
    (ok : s.put name (some entry) count = .ok after) (is : toKey name = .ok key) :
    Balanced after claims := by
  simp only [State.put, is, Except.map] at ok
  cases ok
  refine ⟨?_, ?_, balanced.fresh, balanced.known, balanced.gone, balanced.counted⟩
  · intro other w found
    by_cases here : other = key
    · rw [here] at found
      simp only [Function.update_self, Option.some.injEq] at found
      exact found ▸ mapped
    · simp only [Function.update_of_ne here] at found
      exact balanced.pooled other w found
  · intro one two v w first second same
    by_cases here : one = key
    · by_cases there : two = key
      · exact here.trans there.symm
      · rw [here] at first
        simp only [Function.update_self, Option.some.injEq] at first
        simp only [Function.update_of_ne there] at second
        exact absurd (same.symm.trans (congrArg Entry.obj first.symm)) (apart two w second there)
    · by_cases there : two = key
      · rw [there] at second
        simp only [Function.update_self, Option.some.injEq] at second
        simp only [Function.update_of_ne here] at first
        exact absurd (same.trans (congrArg Entry.obj second.symm)) (apart one v first here)
      · simp only [Function.update_of_ne here] at first
        simp only [Function.update_of_ne there] at second
        exact balanced.distinct one two v w first second same

theorem new (balanced : Balanced s claims) (host : Host) (name : Scalar) (t : LuaValue) :
    Balanced (s.new host name t).1 claims := by
  unfold State.new
  cases build host name t with
  | error fault => exact balanced
  | ok table =>
    simp only [State.newobj]
    split_ifs with known
    · exact balanced
    · cases newconf host.levels table.1 table.2 with
      | error fault => exact balanced
      | ok conf =>
        simp only
        cases is : toKey name with
        | error text =>
          simp only [State.put, is, Except.map]
          exact balanced.create
        | ok key =>
          cases ok : s.create.put name (some ⟨s.created, []⟩) (some ⟨0, 16⟩) with
          | error text => exact balanced.create
          | ok after =>
            refine balanced.create.put_new _ _ ?_ ?_ ok is
            · simp [State.create]
            · intro other v found _
              exact (balanced.pooled_created found).1.ne

theorem drop (balanced : Balanced s claims) (found : s.get name = some v) :
    Balanced ((s.retire v.obj).set name none none) claims := by
  obtain ⟨key, is, there⟩ := get_eq_some found
  rw [set_eq is]
  have others : ∀ other w, Function.update s.pool key none other = some w →
      s.pool other = some w ∧ w.obj ≠ v.obj := by
    intro other w at_
    by_cases here : other = key
    · rw [here, Function.update_self] at at_
      cases at_
    · rw [Function.update_of_ne here] at at_
      exact ⟨at_, fun same => here (balanced.distinct other key w v at_ there same)⟩
  have mapped := balanced.pooled key v there
  have old := balanced.pooled_created there
  refine ⟨?_, ?_, ?_, ?_, ?_, ?_⟩
  · intro other w at_
    obtain ⟨before, apart⟩ := others other w at_
    simp only [State.retire, State.decref, Function.update_of_ne apart]
    exact balanced.pooled other w before
  · intro one two w x first second same
    exact balanced.distinct one two w x (others one w first).1 (others two x second).1 same
  · intro obj new_
    have past : s.created ≤ obj := new_
    have apart : obj ≠ v.obj := by omega
    simp only [State.retire, State.decref, Function.update_of_ne apart]
    exact balanced.fresh obj past
  · intro obj small outside
    by_cases here : obj = v.obj
    · simp [State.retire, State.decref, here]
    · simp only [State.retire, State.decref, Function.update_of_ne here]
      exact balanced.known obj small outside
  · intro obj inside
    have apart : obj ≠ v.obj := by
      rintro rfl
      exact old.2 inside
    simp only [State.retire, State.decref, Function.update_of_ne apart]
    exact balanced.gone obj inside
  · intro obj outside
    have counted := balanced.counted obj outside
    by_cases here : obj = v.obj
    · subst here
      simp only [live, mapped, if_true] at counted
      simp [State.retire, State.decref, live]
      omega
    · simp only [State.retire, State.decref, live, Function.update_of_ne here]
      exact counted

theorem markdirty (balanced : Balanced s claims) (obj : Nat) : Balanced (s.markdirty obj) claims :=
  ⟨balanced.pooled, balanced.distinct, balanced.fresh, balanced.known, balanced.gone,
    balanced.counted⟩

theorem update (balanced : Balanced s claims) (host : Host) (name : Scalar) (t : LuaValue) :
    Balanced (s.update host name t).1 claims := by
  unfold State.update
  cases found : s.get name with
  | none =>
    have made := balanced.new host name t
    simp only
    generalize s.new host name t = outcome at made
    obtain ⟨after, fault | ok⟩ := outcome
    · exact made
    · exact made
  | some v =>
    have made := (balanced.drop found).new host name t
    simp only
    generalize ((s.retire v.obj).set name none none).new host name t = outcome at made
    obtain ⟨after, fault | ok⟩ := outcome
    · exact made
    · exact made.markdirty v.obj

theorem delete (balanced : Balanced s claims) (name : Scalar) :
    Balanced (s.delete name).1 claims := by
  unfold State.delete
  cases found : s.get name with
  | none => exact balanced
  | some v =>
    obtain ⟨key, is, there⟩ := get_eq_some found
    have mapped : (s.objmap v.obj).isSome := by
      rw [balanced.pooled key v there]
      rfl
    have same : (s.set name none none).retire v.obj = (s.retire v.obj).set name none none := by
      rw [set_eq is, set_eq is]
      rfl
    simp only [mapped, if_true, same]
    exact balanced.drop found

theorem incref (balanced : Balanced s claims) (small : obj < s.created) (outside : obj ∉ s.deleted) :
    Balanced (s.incref obj) (Function.update claims obj (claims obj + 1)) where
  pooled := balanced.pooled
  distinct := balanced.distinct
  fresh := by
    intro other new_
    have past : s.created ≤ other := new_
    have apart : other ≠ obj := by omega
    simp only [State.incref, Function.update_of_ne apart]
    exact balanced.fresh other past
  known := balanced.known
  gone := by
    intro other inside
    have apart : other ≠ obj := by
      rintro rfl
      exact outside inside
    rw [Function.update_of_ne apart]
    exact balanced.gone other inside
  counted := by
    intro other alive
    have counted := balanced.counted other alive
    by_cases here : other = obj
    · subst here
      have same : live (s.incref other) other = live s other := rfl
      rw [same]
      simp only [State.incref, Function.update_self, counted]
      omega
    · simp only [State.incref, live, Function.update_of_ne here]
      exact counted

theorem decref (balanced : Balanced s claims) (claimed : 0 < claims obj) :
    Balanced (s.decref obj) (Function.update claims obj (claims obj - 1)) where
  pooled := balanced.pooled
  distinct := balanced.distinct
  fresh := by
    intro other new_
    have past : s.created ≤ other := new_
    have small := balanced.created_of_claimed claimed
    have apart : other ≠ obj := by omega
    simp only [State.decref, Function.update_of_ne apart]
    exact balanced.fresh other past
  known := balanced.known
  gone := by
    intro other inside
    have apart : other ≠ obj := by
      rintro rfl
      exact balanced.not_deleted claimed inside
    rw [Function.update_of_ne apart]
    exact balanced.gone other inside
  counted := by
    intro other alive
    have counted := balanced.counted other alive
    by_cases here : other = obj
    · subst here
      have same : live (s.decref other) other = live s other := rfl
      rw [same]
      simp only [State.decref, Function.update_self, counted]
      omega
    · simp only [State.decref, live, Function.update_of_ne here]
      exact counted

theorem confirm (balanced : Balanced s claims) (claimed : 0 < claims obj) :
    Balanced (s.confirm obj) (Function.update claims obj (claims obj - 1)) := by
  have known := balanced.known obj (balanced.created_of_claimed claimed)
    (balanced.not_deleted claimed)
  rw [State.confirm, if_pos (Option.isSome_iff_ne_none.mpr known)]
  exact balanced.decref claimed

theorem monitor (balanced : Balanced s claims) (name : Scalar) (obj : Nat) (watch : Watch) :
    Balanced (s.monitor name obj watch).1 claims := by
  unfold State.monitor
  cases found : s.get name with
  | none => exact balanced
  | some v =>
    obtain ⟨key, is, there⟩ := get_eq_some found
    simp only
    split_ifs with other
    · exact balanced
    · cases ok : s.put name (some { v with watch := v.watch ++ [watch] })
        ((s.count name).map State.counted) with
      | error text =>
        simp only [State.put, is, Except.map] at ok
        cases ok
      | ok after =>
        simp only [State.set, ok]
        refine balanced.put_new { v with watch := v.watch ++ [watch] } _
          (balanced.pooled key v there) ?_ ok is
        intro one w at_ apart same
        exact apart (balanced.distinct one key w v at_ there same)

theorem collectone (balanced : Balanced s claims) (obj : Nat) :
    Balanced (s.collectone obj) claims := by
  unfold State.collectone
  split_ifs with collectable
  · obtain ⟨retired, zero⟩ := collectable
    have alive : obj ∉ s.deleted := by
      intro inside
      cases retired.symm.trans (balanced.gone obj inside).1
    have small : obj < s.created := by
      by_contra new_
      cases retired.symm.trans (balanced.fresh obj (not_lt.mp new_)).1
    refine ⟨?_, balanced.distinct, ?_, ?_, ?_, ?_⟩
    · intro key v found
      have mapped := balanced.pooled key v found
      have apart : v.obj ≠ obj := by
        intro same
        rw [same] at mapped
        cases retired.symm.trans mapped
      simp only [Function.update_of_ne apart]
      exact mapped
    · intro other new_
      have past : s.created ≤ other := new_
      have apart : other ≠ obj := by omega
      obtain ⟨missing, none_, outside⟩ := balanced.fresh other past
      simp only [Function.update_of_ne apart, List.mem_cons, not_or]
      exact ⟨missing, none_, apart, outside⟩
    · intro other low outside
      rw [List.mem_cons, not_or] at outside
      simp only [Function.update_of_ne outside.1]
      exact balanced.known other low outside.2
    · intro other inside
      by_cases here : other = obj
      · subst here
        have counted := balanced.counted other alive
        simp only [Function.update_self, true_and]
        omega
      · simp only [Function.update_of_ne here]
        exact balanced.gone other ((List.mem_cons.mp inside).resolve_left here)
    · intro other outside
      rw [List.mem_cons, not_or] at outside
      simp only [live, Function.update_of_ne outside.1]
      exact balanced.counted other outside.2
  · exact balanced

theorem collectobj (balanced : Balanced s claims) : Balanced s.collectobj claims := by
  unfold State.collectobj
  generalize List.range s.created = objects
  induction objects generalizing s with
  | nil => exact balanced
  | cons obj rest ih => exact ih (balanced.collectone obj)

end Balanced

theorem collectobj_deleted {obj : Nat} (gone : obj ∈ s.collectobj.deleted) :
    obj ∈ s.deleted ∨ s.collectable obj := by
  have rounds : ∀ (objects : List Nat) (t : State),
      (∀ obj, obj ∈ t.deleted → obj ∈ s.deleted ∨ s.collectable obj) →
      (∀ obj, t.collectable obj → s.collectable obj) →
      ∀ obj, obj ∈ (objects.foldl State.collectone t).deleted → obj ∈ s.deleted ∨ s.collectable obj := by
    intro objects
    induction objects with
    | nil => exact fun t deleted _ => deleted
    | cons first rest ih =>
      intro t deleted collectable
      refine ih _ ?_ ?_
      · intro obj inside
        unfold State.collectone at inside
        split_ifs at inside with here
        · rcases List.mem_cons.mp inside with same | old
          · exact .inr (same ▸ collectable first here)
          · exact deleted obj old
        · exact deleted obj inside
      · intro obj still
        unfold State.collectone at still
        split_ifs at still with here
        · by_cases same : obj = first
          · exact same ▸ collectable first here
          · refine collectable obj ⟨?_, still.2⟩
            have mapped := still.1
            simp only [Function.update_of_ne same] at mapped
            exact mapped
        · exact collectable obj still
  exact rounds _ s (fun _ inside => .inl inside) (fun _ is => is) obj gone

end Pskynet.Sharedata
