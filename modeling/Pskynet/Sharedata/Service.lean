import Mathlib.Logic.Function.Basic
import Pskynet.Sharedata.Table

set_option autoImplicit false

namespace Pskynet.Sharedata

open Lua

structure Watch where
  client : Nat
  root : Nat
  deriving DecidableEq

structure Entry where
  obj : Nat
  watch : List Watch

structure Count where
  n : Int
  threshold : Int

-- The tables of the service, and for each object its `state`. Objects are numbered in the order
-- in which they were made. In `objmap` true is a retired object, false one with its entry.
structure State where
  pool : Scalar → Option Entry
  poolCount : Scalar → Option Count
  objmap : Nat → Option Bool
  refs : Nat → Int
  dirty : Nat → Bool
  deleted : List Nat
  created : Nat

-- What the service runs on: the C levels left for `host.new`, and the table that a script, of the
-- name and with the code given, leaves behind.
structure Host where
  levels : Nat
  script : Scalar → List UInt8 → Except String (Nat × Entries)

namespace State

def start : State where
  pool := fun _ => none
  poolCount := fun _ => none
  objmap := fun _ => none
  refs := fun _ => 0
  dirty := fun _ => false
  deleted := []
  created := 0

def get (s : State) (name : Scalar) : Option Entry :=
  match toKey name with
  | .ok key => s.pool key
  | .error _ => none

def count (s : State) (name : Scalar) : Option Count :=
  match toKey name with
  | .ok key => s.poolCount key
  | .error _ => none

-- `pool[name]` and `pool_count[name]` that are written.
def put (s : State) (name : Scalar) (entry : Option Entry) (count : Option Count) :
    Except String State :=
  (toKey name).map fun key =>
    { s with
      pool := Function.update s.pool key entry
      poolCount := Function.update s.poolCount key count }

def set (s : State) (name : Scalar) (entry : Option Entry) (count : Option Count) : State :=
  match s.put name entry count with
  | .ok after => after
  | .error _ => s

def incref (s : State) (obj : Nat) : State :=
  { s with refs := Function.update s.refs obj (s.refs obj + 1) }

def decref (s : State) (obj : Nat) : State :=
  { s with refs := Function.update s.refs obj (s.refs obj - 1) }

-- Both of `CMD.delete` and `CMD.update` do so with the object that the name had.
def retire (s : State) (obj : Nat) : State :=
  { s with objmap := Function.update s.objmap obj (some true) }.decref obj

def markdirty (s : State) (obj : Nat) : State :=
  { s with dirty := Function.update s.dirty obj true }

-- The object of `host.new`, with the reference of the service.
def create (s : State) : State :=
  { s with
    created := s.created + 1
    refs := Function.update s.refs s.created 1
    objmap := Function.update s.objmap s.created (some false) }

-- Errors are without the position that Lua puts in front.
def newobj (host : Host) (s : State) (name : Scalar) (table : Nat × Entries) :
    State × Except Fault Unit :=
  if (s.get name).isSome then (s, .error (.error "assertion failed!"))
  else
    match newconf host.levels table.1 table.2 with
    | .error fault => (s, .error fault)
    | .ok _ =>
        match s.create.put name (some ⟨s.created, []⟩) (some ⟨0, 16⟩) with
        | .error text => (s.create, .error (.error text))
        | .ok after => (after, .ok ())

end State

def build (host : Host) (name : Scalar) : LuaValue → Except Fault (Nat × Entries)
  | .table size entries => .ok (size, entries)
  | .scalar (.string t) =>
      match name with
      | .string _ | .integer _ | .number _ =>
          match host.script name t with
          | .error text => .error (.error text)
          | .ok table => .ok table
      | other =>
          .error (.error ("attempt to concatenate a " ++ (LuaValue.scalar other).typename ++
            " value (local 'name')"))
  | .scalar .nil => .ok (0, [])
  | t => .error (.error ("Unknown data type " ++ t.typename))

namespace State

def new (host : Host) (s : State) (name : Scalar) (t : LuaValue) : State × Except Fault Unit :=
  match build host name t with
  | .error fault => (s, .error fault)
  | .ok table => s.newobj host name table

def delete (s : State) (name : Scalar) : State × Except Fault (List Watch) :=
  match s.get name with
  | none => (s, .error (.error "assertion failed!"))
  | some v =>
      let after := s.set name none none
      if (s.objmap v.obj).isSome then (after.retire v.obj, .ok v.watch)
      else (after, .error (.error "assertion failed!"))

def query (s : State) (name : Scalar) : State × Except Fault Nat :=
  match s.get name with
  | none => (s, .error (.error "assertion failed!"))
  | some v => (s.incref v.obj, .ok v.obj)

def confirm (s : State) (cobj : Nat) : State :=
  if (s.objmap cobj).isSome then s.decref cobj else s

def update (host : Host) (s : State) (name : Scalar) (t : LuaValue) :
    State × Except Fault (List Watch × Nat) :=
  let before :=
    match s.get name with
    | some v => (s.retire v.obj).set name none none
    | none => s
  match before.new host name t with
  | (after, .error fault) => (after, .error fault)
  | (after, .ok ()) =>
      match s.get name with
      | some v => (after.markdirty v.obj, .ok (v.watch, before.created))
      | none => (after, .ok ([], before.created))

-- No service dies here, so `check_watch` finds no response to remove.
def counted (count : Count) : Count :=
  if count.threshold < count.n then { n := count.n + 1, threshold := count.n * 2 }
  else { count with n := count.n + 1 }

def monitor (s : State) (name : Scalar) (obj : Nat) (watch : Watch) :
    State × Except Fault (Option Nat) :=
  match s.get name with
  | none => (s, .error (.error "assertion failed!"))
  | some v =>
      if obj ≠ v.obj then (s, .ok (some v.obj))
      else
        (s.set name (some { v with watch := v.watch ++ [watch] }) ((s.count name).map counted),
          .ok none)

def collectable (s : State) (obj : Nat) : Prop := s.objmap obj = some true ∧ s.refs obj ≤ 0

instance (s : State) (obj : Nat) : Decidable (s.collectable obj) :=
  inferInstanceAs (Decidable (_ ∧ _))

def collectone (s : State) (obj : Nat) : State :=
  if s.collectable obj then
    { s with objmap := Function.update s.objmap obj none, deleted := obj :: s.deleted }
  else s

def collectobj (s : State) : State := (List.range s.created).foldl collectone s

end State

-- The data can be made an object: its type is known, a script runs, and `host.new` accepts the
-- table.
def Buildable (host : Host) (name : Scalar) (t : LuaValue) : Prop :=
  ∃ table conf, build host name t = .ok table ∧ newconf host.levels table.1 table.2 = .ok conf

-- The watchers are in the entries of `pool`.
def Unchanged (s after : State) : Prop :=
  after.pool = s.pool ∧ after.objmap = s.objmap ∧ after.refs = s.refs

def Atomic (host : Host) (s : State) (name : Scalar) (t : LuaValue) : Prop :=
  ∀ fault, (s.update host name t).2 = .error fault → Unchanged s (s.update host name t).1

def Replaceable (host : Host) (s : State) (name : Scalar) (t : LuaValue) : Prop :=
  match toKey name with
  | .ok _ => (s.get name).isSome → Buildable host name t
  | .error _ => ¬Buildable host name t

variable {host : Host} {s : State} {name key : Scalar} {t : LuaValue} {text : String}

theorem new_unbuildable (s : State) (unbuildable : ¬Buildable host name t) :
    ∃ fault, s.new host name t = (s, .error fault) := by
  unfold State.new
  cases built : build host name t with
  | error fault => exact ⟨fault, rfl⟩
  | ok table =>
    simp only [State.newobj]
    split_ifs with known
    · exact ⟨_, rfl⟩
    · cases accepted : newconf host.levels table.1 table.2 with
      | error fault => exact ⟨fault, rfl⟩
      | ok conf => exact absurd ⟨table, conf, built, accepted⟩ unbuildable

theorem new_buildable (buildable : Buildable host name t) (free : s.get name = none) :
    s.new host name t =
      match s.create.put name (some ⟨s.created, []⟩) (some ⟨0, 16⟩) with
      | .error text => (s.create, .error (.error text))
      | .ok after => (after, .ok ()) := by
  obtain ⟨table, conf, built, accepted⟩ := buildable
  unfold State.new
  rw [built]
  simp only [State.newobj, free, Option.isSome_none, Bool.false_eq_true, if_false, accepted]

theorem new_keyed (buildable : Buildable host name t) (is : toKey name = .ok key)
    (free : s.get name = none) : ∃ after, s.new host name t = (after, .ok ()) := by
  rw [new_buildable buildable free]
  simp only [State.put, is, Except.map]
  exact ⟨_, rfl⟩

theorem new_unkeyed (buildable : Buildable host name t) (is : toKey name = .error text)
    (free : s.get name = none) : s.new host name t = (s.create, .error (.error text)) := by
  rw [new_buildable buildable free]
  simp only [State.put, is, Except.map]

theorem get_set_none (is : toKey name = .ok key) : (s.set name none none).get name = none := by
  simp [State.set, State.put, State.get, is, Except.map]

theorem update_unknown (free : s.get name = none) :
    s.update host name t =
      match s.new host name t with
      | (after, .error fault) => (after, .error fault)
      | (after, .ok ()) => (after, .ok ([], s.created)) := by
  simp only [State.update, free]

theorem update_atomic (host : Host) (s : State) (name : Scalar) (t : LuaValue)
    (fresh : s.objmap s.created = none) :
    Atomic host s name t ↔ Replaceable host s name t := by
  unfold Replaceable
  cases is : toKey name with
  | error text =>
    have free : s.get name = none := by
      simp only [State.get, is]
    unfold Atomic
    rw [update_unknown free]
    constructor
    · intro atomic buildable
      rw [new_unkeyed buildable is free] at atomic
      have same := congrFun (atomic _ rfl).2.1 s.created
      simp [State.create, fresh] at same
    · intro unbuildable fault raised
      obtain ⟨other, made⟩ := new_unbuildable s unbuildable
      rw [made]
      exact ⟨rfl, rfl, rfl⟩
  | ok key =>
    cases known : s.get name with
    | none =>
      simp only [Option.isSome_none, Bool.false_eq_true, false_imp_iff, iff_true]
      unfold Atomic
      rw [update_unknown known]
      intro fault raised
      by_cases buildable : Buildable host name t
      · obtain ⟨after, made⟩ := new_keyed buildable is known
        rw [made] at raised
        cases raised
      · obtain ⟨other, made⟩ := new_unbuildable s buildable
        rw [made]
        exact ⟨rfl, rfl, rfl⟩
    | some v =>
      simp only [Option.isSome_some, true_imp_iff]
      unfold Atomic
      simp only [State.update, known]
      constructor
      · intro atomic
        by_contra unbuildable
        obtain ⟨other, made⟩ := new_unbuildable ((s.retire v.obj).set name none none) unbuildable
        rw [made] at atomic
        have same := (atomic _ rfl).1
        have gone : ((s.retire v.obj).set name none none).get name = none := get_set_none is
        rw [State.get, is] at known gone
        simp only at known gone
        rw [same, known] at gone
        cases gone
      · intro buildable fault raised
        obtain ⟨after, made⟩ := new_keyed (s := (s.retire v.obj).set name none none) buildable is
          (get_set_none is)
        rw [made] at raised
        cases raised

def plainHost : Host := { levels := 10, script := fun _ _ => .error "attempt to call a nil value" }

def named : State := (State.start.new plainHost (.string [97]) Lua.nil).1

theorem named_update_atomic :
    Atomic plainHost named (.string [97]) (.table 1 [(.scalar (.integer 1), .scalar (.integer 7))]) :=
  (update_atomic _ _ _ _ rfl).mpr fun _ => ⟨_, _, rfl, rfl⟩

theorem update_loses_name :
    ¬∀ (host : Host) (s : State) (name : Scalar) (t : LuaValue), Atomic host s name t := by
  intro atomic
  have same := (atomic plainHost named (.string [97]) (.scalar (.integer 7)) _ rfl).1
  have gone := congrFun same (.string [97])
  cases gone

end Pskynet.Sharedata
