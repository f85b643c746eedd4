import Pskynet.Lua.Value

set_option autoImplicit false

namespace Pskynet.Datacenter

open Lua (Scalar toKey)

theorem toKey_toKey {value key : Scalar} (is : toKey value = .ok key) : toKey key = .ok key := by
  cases value with
  | nil => cases is
  | number bits =>
    simp only [toKey] at is
    split_ifs at is with nan
    cases whole : Lua.numisinteger bits with
    | some integer =>
      rw [whole] at is
      cases is
      rfl
    | none =>
      rw [whole] at is
      cases is
      simp only [toKey, nan, whole]
      rfl
  | boolean | integer | string | lightuserdata =>
    cases is
    rfl

abbrev Key := {key : Scalar // toKey key = .ok key}

inductive Value where
  | scalar (value : Scalar)
  | table (fields : Key → Value)

abbrev Fields := Key → Value

namespace Value

def nil : Value := .scalar .nil

def isNil : Value → Bool
  | .scalar .nil => true
  | _ => false

def truthy : Value → Bool
  | .scalar .nil => false
  | .scalar (.boolean value) => value
  | _ => true

def asKey : Value → Option Key
  | .scalar value =>
      match is : toKey value with
      | .ok key => some ⟨key, toKey_toKey is⟩
      | .error _ => none
  | .table _ => none

def ofKey (key : Key) : Value := .scalar key.val

theorem asKey_ofKey (key : Key) : (ofKey key).asKey = some key := by
  simp only [ofKey, asKey]
  split
  · rename_i other is
    rw [key.property, Except.ok.injEq] at is
    exact congrArg some (Subtype.ext is.symm)
  · rename_i error is
    rw [key.property] at is
    cases is

theorem isNil_iff (value : Value) : value.isNil = true ↔ value = nil := by
  cases value with
  | scalar value => cases value <;> simp [isNil, nil]
  | table fields => simp [isNil, nil]

theorem truthy_iff (value : Value) :
    value.truthy = true ↔ value ≠ nil ∧ value ≠ .scalar (.boolean false) := by
  cases value with
  | scalar value =>
    cases value with
    | boolean value => cases value <;> simp [truthy, nil]
    | nil | integer | number | string | lightuserdata => simp [truthy, nil]
  | table fields => simp [truthy, nil]

end Value

-- Reading a field of nil, a number or a boolean raises. (The methods of strings are left out: the
-- commands are not given paths through strings.)
def query : Value → List Key → Option Value
  | db, [] => some db
  | .table fields, key :: rest => query (fields key) rest
  | .scalar _, _ :: _ => none

def queryCommand (database : Fields) : List Key → Option Value
  | [] => some .nil
  | key :: rest =>
      if (database key).truthy then query (database key) rest else some .nil

def update : Fields → Key → List Key → Value → Option (Fields × Value)
  | db, key, [], value => some (Function.update db key value, db key)
  | db, key, next :: rest, value =>
      match if (db key).isNil then .table fun _ => .nil else db key with
      | .table fields => (update fields next rest value).map fun (fields, ret) =>
          (Function.update db key (.table fields), ret)
      | .scalar _ => none

def valueAt : Value → List Key → Value
  | db, [] => db
  | .table fields, key :: rest => valueAt (fields key) rest
  | .scalar _, _ :: _ => .nil

def passes : Value → List Key → Bool
  | _, [] => true
  | .table fields, key :: rest => passes (fields key) rest
  | .scalar value, _ :: _ => (Value.scalar value).isNil

@[simp] theorem valueAt_nil (db : Value) : valueAt db [] = db := by
  cases db <;> rfl

theorem valueAt_absent (path : List Key) : valueAt .nil path = .nil := by
  cases path <;> rfl

theorem passes_absent (path : List Key) : passes .nil path = true := by
  cases path <;> rfl

theorem valueAt_append (db : Value) (path rest : List Key) :
    valueAt db (path ++ rest) = valueAt (valueAt db path) rest := by
  induction path generalizing db with
  | nil => simp
  | cons key path ih =>
    cases db with
    | scalar value => simpa [valueAt] using (valueAt_absent rest).symm
    | table fields => exact ih (fields key)

theorem valueAt_dropLast {db : Value} {path : List Key} (some_ : path ≠ [])
    (found : valueAt db path ≠ .nil) : valueAt db path.dropLast ≠ .nil := by
  intro missing
  rw [← List.dropLast_append_getLast some_, valueAt_append, missing, valueAt_absent] at found
  exact found rfl

theorem query_eq (db : Value) (path : List Key) (pass : passes db path = true) :
    query db path =
      if path ≠ [] ∧ (valueAt db path.dropLast).isNil = true then none
      else some (valueAt db path) := by
  induction path generalizing db with
  | nil => simp [query]
  | cons key rest ih =>
    cases db with
    | scalar value =>
      have absent : Value.scalar value = .nil := (Value.isNil_iff _).mp pass
      rw [absent, if_pos ⟨List.cons_ne_nil _ _, by rw [valueAt_absent]; rfl⟩]
      rfl
    | table fields =>
      rw [query, ih (fields key) pass]
      cases rest with
      | nil => simp [valueAt, Value.isNil]
      | cons next rest => simp [valueAt]

def Missing (database : Fields) : List Key → Prop
  | [] => False
  | key :: rest =>
      database key ≠ .nil ∧ rest ≠ [] ∧ valueAt (database key) rest.dropLast = .nil

theorem truthy_of_passes {db : Value} {path : List Key} (pass : passes db path = true)
    (some_ : path ≠ []) (found : db ≠ .nil) : db.truthy = true := by
  cases path with
  | nil => exact absurd rfl some_
  | cons key rest =>
    cases db with
    | scalar value => exact absurd ((Value.isNil_iff _).mp pass) found
    | table fields => rfl

theorem queryCommand_found (database : Fields) (path : List Key) (some_ : path ≠ [])
    (pass : passes (.table database) path = true)
    (found : (valueAt (.table database) path).truthy = true) :
    queryCommand database path = some (valueAt (.table database) path) := by
  cases path with
  | nil => exact absurd rfl some_
  | cons key rest =>
    have below : passes (database key) rest = true := pass
    have there : valueAt (database key) rest ≠ .nil := ((Value.truthy_iff _).mp found).1
    have open_ : ¬(rest ≠ [] ∧ (valueAt (database key) rest.dropLast).isNil = true) := by
      rintro ⟨more, missing⟩
      exact valueAt_dropLast more there ((Value.isNil_iff _).mp missing)
    have truthy : (database key).truthy = true := by
      by_cases more : rest = []
      · subst more
        simpa [valueAt] using found
      · refine truthy_of_passes below more ?_
        intro absent
        rw [absent, valueAt_absent] at there
        exact there rfl
    rw [queryCommand, if_pos truthy, query_eq _ _ below, if_neg open_]
    rfl

theorem queryCommand_missing (database : Fields) (path : List Key)
    (pass : passes (.table database) path = true) (missing : Missing database path) :
    queryCommand database path = none := by
  cases path with
  | nil => exact absurd missing not_false
  | cons key rest =>
    obtain ⟨here, more, missing⟩ := missing
    have below : passes (database key) rest = true := pass
    rw [queryCommand, if_pos (truthy_of_passes below more here), query_eq _ _ below,
      if_pos ⟨more, (Value.isNil_iff _).mpr missing⟩]

theorem queryCommand_unfound (database : Fields) (path : List Key)
    (pass : passes (.table database) path = true) (present : ¬Missing database path)
    (unfound : path ≠ [] → (valueAt (.table database) path).truthy = false) :
    ∃ ret, queryCommand database path = some ret ∧ ret.truthy = false := by
  cases path with
  | nil => exact ⟨.nil, rfl, rfl⟩
  | cons key rest =>
    have below : passes (database key) rest = true := pass
    by_cases truthy : (database key).truthy = true
    · have here := ((Value.truthy_iff _).mp truthy).1
      have open_ : ¬(rest ≠ [] ∧ (valueAt (database key) rest.dropLast).isNil = true) := by
        rintro ⟨more, missing⟩
        exact present ⟨here, more, (Value.isNil_iff _).mp missing⟩
      refine ⟨valueAt (database key) rest, ?_, unfound (List.cons_ne_nil _ _)⟩
      rw [queryCommand, if_pos truthy, query_eq _ _ below, if_neg open_]
    · exact ⟨.nil, by rw [queryCommand, if_neg truthy], rfl⟩

theorem update_spec (db : Fields) (key : Key) (rest : List Key) (value : Value)
    (pass : passes (.table db) (key :: rest) = true) :
    ∃ after, update db key rest value = some (after, valueAt (.table db) (key :: rest)) ∧
      (∀ below, valueAt (.table after) (key :: rest ++ below) = valueAt value below) ∧
      (∀ above below, key :: rest = above ++ below → below ≠ [] →
        valueAt (.table after) above ≠ .nil) ∧
      ∀ path, ¬key :: rest <+: path → ¬path <+: key :: rest →
        valueAt (.table after) path = valueAt (.table db) path := by
  induction rest generalizing db key with
  | nil =>
    refine ⟨_, by rw [update, valueAt, valueAt_nil], ?_, ?_, ?_⟩
    · intro below
      simp [valueAt]
    · intro above below split some_
      cases above with
      | nil => exact Value.noConfusion
      | cons other above =>
        rw [List.cons_append, List.cons.injEq] at split
        exact absurd (List.append_eq_nil_iff.mp split.2.symm).2 some_
    · intro path outside inside
      cases path with
      | nil => exact absurd List.nil_prefix inside
      | cons other path =>
        have apart : other ≠ key := by
          intro same
          refine outside ?_
          rw [same, List.cons_prefix_cons]
          exact ⟨rfl, List.nil_prefix⟩
        simp [valueAt, apart]
  | cons next rest ih =>
    have below : passes (db key) (next :: rest) = true := pass
    obtain ⟨fields, is, pass', old⟩ : ∃ fields,
        (if (db key).isNil then .table fun _ => .nil else db key) = Value.table fields ∧
          passes (.table fields) (next :: rest) = true ∧
          ∀ path, path ≠ [] → valueAt (.table fields) path = valueAt (db key) path := by
      by_cases absent : (db key).isNil = true
      · refine ⟨_, if_pos absent, passes_absent rest, ?_⟩
        intro path some_
        rw [(Value.isNil_iff _).mp absent, valueAt_absent]
        cases path with
        | nil => exact absurd rfl some_
        | cons other path => exact valueAt_absent path
      · rw [if_neg absent]
        cases there : db key with
        | scalar scalar =>
          rw [there] at below absent
          exact absurd below absent
        | table fields => exact ⟨fields, rfl, there ▸ below, fun _ _ => rfl⟩
    obtain ⟨after, done, set, above, others⟩ := ih fields next pass'
    refine ⟨Function.update db key (.table after), ?_, ?_, ?_, ?_⟩
    · simp only [update, is, done, Option.map_some, old (next :: rest) (List.cons_ne_nil _ _)]
      rfl
    · intro below
      rw [List.cons_append, valueAt, Function.update_self]
      exact set below
    · intro path below split some_
      cases path with
      | nil => exact Value.noConfusion
      | cons other path =>
        rw [List.cons_append, List.cons.injEq] at split
        rw [← split.1, valueAt, Function.update_self]
        exact above path below split.2 some_
    · intro path outside inside
      cases path with
      | nil => exact absurd List.nil_prefix inside
      | cons other path =>
        by_cases same : other = key
        · subst same
          rw [List.cons_prefix_cons] at outside inside
          have some_ : path ≠ [] := by
            intro empty
            exact inside ⟨rfl, empty ▸ List.nil_prefix⟩
          rw [valueAt, Function.update_self,
            others path (fun h => outside ⟨rfl, h⟩) (fun h => inside ⟨rfl, h⟩), old path some_]
          rfl
        · simp [valueAt, same]

end Pskynet.Datacenter
