import Pskynet.Sharedata.Decide
import Pskynet.Sharedata.Reading

set_option autoImplicit false

namespace Pskynet.Sharedata

open Lua ChainedHash Outcome

def Representable : LuaValue → Prop
  | .scalar key => IsKey key
  | _ => False

def Misfit (root : LuaValue) : Prop :=
  ∃ sizearray entries, Part root (.table sizearray entries) ∧ ∃ e ∈ entries, ¬Representable e.1

def StringKeys (root : LuaValue) : Prop :=
  ∀ sizearray entries, Part root (.table sizearray entries) →
    ∀ e ∈ entries, ∃ str, e.1 = .scalar (.string str)

structure Guarded (levels sizearray : Nat) (entries : Entries) : Prop where
  rejects : Misfit (.table sizearray entries) →
    ∃ fault, newconf levels sizearray entries = .error fault ∧ Raised fault
  misses : ∀ conf, newconf levels sizearray entries = .ok conf → ∀ path tbl (n : Int64),
    follow conf.strings conf.root path = some tbl → (n.toInt < -2 ^ 31 ∨ 2 ^ 31 ≤ n.toInt) →
    indexconf conf.strings tbl (.integer n) = .ok (.scalar .nil)
  apart : ∀ conf, newconf levels sizearray entries = .ok conf → ∀ path size sub,
    walk (.table sizearray entries) path = .table size sub →
    ∃ tbl, follow conf.strings conf.root path = some tbl ∧
      ∀ key, IsKey key → Shows (indexconf conf.strings tbl key) (rawget sub key)

variable {levels sizearray : Nat} {entries : Entries} {root v : LuaValue}
  {strings : List (List UInt8)} {all : List (Scalar × LuaValue)} {tbl : Table Value}

theorem walk_part {path : List Scalar} {size : Nat} {sub : Entries}
    (there : walk root path = .table size sub) : Part root (.table size sub) := by
  induction path generalizing root with
  | nil =>
    have same : root = .table size sub := there
    rw [same]
    exact .self _
  | cons key path ih =>
    obtain ⟨sizearray, entries, rfl⟩ := walk_table there
    have later : walk (rawget entries key) path = .table size sub := there
    rcases rawget_cases entries key with ⟨none_, _⟩ | ⟨e, inside, _, is⟩
    · obtain ⟨_, _, table⟩ := walk_table later
      cases none_.symm.trans table
    · exact .value inside (ih (is ▸ later))

theorem not_misfit_value {e : LuaValue × LuaValue} (fits : ¬Misfit (.table sizearray entries))
    (inside : e ∈ entries) : ¬Misfit e.2 := by
  rintro ⟨size, sub, part, misfit⟩
  exact fits ⟨size, sub, .value inside part, misfit⟩

theorem part_walk {sub : Entries} {size : Nat} (part : Part root (.table size sub))
    (sound : WellFormed root) (fits : ¬Misfit root) : ∃ path, walk root path = .table size sub := by
  generalize same : LuaValue.table size sub = target at part
  induction part with
  | self v => exact ⟨[], rfl⟩
  | @value sizearray entries e target inside part ih =>
    obtain ⟨path, there⟩ := ih (sound.value inside) (not_misfit_value fits inside) same
    have is : Representable e.1 := by
      by_contra misfit
      exact fits ⟨sizearray, entries, .self _, e, inside, misfit⟩
    obtain ⟨key, value⟩ := e
    cases key with
    | scalar key =>
      refine ⟨key :: path, ?_⟩
      show walk (rawget entries key) path = _
      rw [rawget_of_mem (sound _ _ (.self _)).nodup inside rfl]
      exact there
    | table | other => exact is.elim

theorem pairs_of_representable (entries : Entries) (fits : ∀ e ∈ entries, Representable e.1) :
    ∃ all : List (Scalar × LuaValue), entries = all.map entry ∧ ∀ pair ∈ all, IsKey pair.1 := by
  induction entries with
  | nil => exact ⟨[], rfl, fun _ inside => by cases inside⟩
  | cons e entries ih =>
    obtain ⟨all, rfl, keys⟩ := ih fun e inside => fits e (List.mem_cons_of_mem _ inside)
    have is := fits e List.mem_cons_self
    obtain ⟨key, value⟩ := e
    cases key with
    | scalar key =>
      refine ⟨(key, value) :: all, rfl, ?_⟩
      rintro pair (_ | ⟨_, inside⟩)
      · exact is
      · exact keys pair inside
    | table | other => exact is.elim

theorem plain_of_fits (table : LuaTable sizearray entries)
    (fits : ∀ e ∈ entries, Representable e.1) :
    ∃ all, entries = all.map entry ∧ Plain sizearray all := by
  obtain ⟨all, rfl, keys⟩ := pairs_of_representable entries fits
  refine ⟨all, rfl, keys, ?_, ?_, table.border⟩
  · have nodup := table.nodup
    rw [List.pairwise_map] at nodup
    refine List.pairwise_map.mpr (nodup.imp ?_)
    intro one two differ same
    exact differ one.1 rfl (congrArg LuaValue.scalar same.symm)
  · intro pair inside
    exact table.values (entry pair) (List.mem_map_of_mem inside)

theorem fits_of_part {size : Nat} {sub : Entries} (fits : ¬Misfit root)
    (part : Part root (.table size sub)) : ∀ e ∈ sub, Representable e.1 := by
  intro e inside
  by_contra misfit
  exact fits ⟨size, sub, part, e, inside, misfit⟩

theorem shareable_of_fits (sound : WellFormed root) (fits : ¬Misfit root) : Shareable root := by
  intro path size sub there
  have part := walk_part there
  exact plain_of_fits (sound size sub part) (fits_of_part fits part)

theorem indexconf_congr {n m : Int64} (same : n.toInt32 = m.toInt32) :
    indexconf strings tbl (.integer n) = indexconf strings tbl (.integer m) := by
  simp only [indexconf, same]

theorem toInt_shift {n : Int64} (is : IsKey (.integer n)) :
    (n + 4294967296).toInt = n.toInt + 2 ^ 32 ∧ (n + 4294967296).toInt32 = n.toInt32 := by
  obtain ⟨low, high⟩ := is
  have shifted : (n + 4294967296).toInt = n.toInt + 2 ^ 32 := by
    rw [Int64.toInt_add]
    exact Int.bmod_eq_of_le (by simp; omega) (by simp; omega)
  refine ⟨shifted, ?_⟩
  rw [← Int32.toInt_inj, Int64.toInt_toInt32, Int64.toInt_toInt32, shifted]
  exact Int.add_bmod_right _ _

theorem follow_newconf {conf : Conf} (accepted : newconf levels sizearray entries = .ok conf) :
    ∃ made, convtable levels ⟨[]⟩ sizearray entries = .ok made ∧ conf.strings = made.1.strings ∧
      conf.root = made.2 := by
  simp only [newconf] at accepted
  obtain ⟨made, ok, accepted⟩ := bind_ok.mp accepted
  split_ifs at accepted with full
  cases accepted
  exact ⟨made, ok, rfl, rfl⟩

theorem fits_reads_back (sound : WellFormed (.table sizearray entries))
    (fits : ¬Misfit (.table sizearray entries)) {conf : Conf}
    (accepted : newconf levels sizearray entries = .ok conf) (path : List Scalar) (size : Nat)
    (sub : Entries) (there : walk (.table sizearray entries) path = .table size sub) :
    ∃ tbl, follow conf.strings conf.root path = some tbl ∧
      ∀ key, IsKey key → Shows (indexconf conf.strings tbl key) (rawget sub key) := by
  obtain ⟨made, ok, texts, root⟩ := follow_newconf accepted
  have once := (convtable_grows levels _ _ _ _ ok).2 List.nodup_nil
  obtain ⟨tbl, found, reads⟩ := convtable_reads_back path (shareable_of_fits sound fits)
    List.nodup_nil ok once List.prefix_rfl there
  rw [texts, root]
  exact ⟨tbl, found, reads.index⟩

theorem Built.misses (built : Built levels strings sizearray all tbl) (plain : Plain sizearray all)
    (texts : ∀ pair ∈ all, ∃ str, pair.1 = .string str) (n : Int64) :
    indexconf strings tbl (.integer n) = .ok (.scalar .nil) := by
  have narrow : n.toInt32.toInt64.toInt32 = n.toInt32 := Int32.toInt32_toInt64 _
  have is : IsKey (.integer n.toInt32.toInt64) := copiedKey_isKey (.scalar (.integer n))
  have absent : Scalar.integer n.toInt32.toInt64 ∉ all.map Prod.fst := by
    intro inside
    obtain ⟨pair, member, same⟩ := List.mem_map.mp inside
    obtain ⟨str, text⟩ := texts pair member
    cases text.symm.trans same
  obtain ⟨value, result, converted⟩ := built.index plain is
  rw [rawget_absent absent] at converted
  rw [← indexconf_congr narrow, result]
  exact converted.shows

theorem stringKeys_value {e : LuaValue × LuaValue} (keys : StringKeys (.table sizearray entries))
    (inside : e ∈ entries) : StringKeys e.2 :=
  fun _ _ part => keys _ _ (.value inside part)

theorem not_misfit_of_stringKeys (keys : StringKeys root) : ¬Misfit root := by
  rintro ⟨size, sub, part, e, inside, misfit⟩
  obtain ⟨str, is⟩ := keys size sub part e inside
  exact misfit (is ▸ trivial)

theorem follow_misses (path : List Scalar) {ctx : Context} {made : Context × Table Value}
    (sound : WellFormed (.table sizearray entries)) (keys : StringKeys (.table sizearray entries))
    (start : ctx.strings.Nodup) (ok : convtable levels ctx sizearray entries = .ok made)
    (once : strings.Nodup) (ahead : made.1.strings <+: strings)
    (found : follow strings made.2 path = some tbl) (n : Int64) :
    indexconf strings tbl (.integer n) = .ok (.scalar .nil) := by
  induction path generalizing levels ctx made sizearray entries with
  | nil =>
    obtain rfl := Option.some.inj found
    cases levels with
    | zero => cases ok
    | succ levels =>
      have fits := fits_of_part (not_misfit_of_stringKeys keys) (.self _)
      obtain ⟨all, rfl, plain⟩ := plain_of_fits (sound _ _ (.self _)) fits
      refine (convtable_built plain start ok once ahead).misses plain ?_ n
      intro pair inside
      obtain ⟨str, is⟩ := keys _ _ (.self _) (entry pair) (List.mem_map_of_mem inside)
      exact ⟨str, LuaValue.scalar.inj is⟩
  | cons key path ih =>
    cases levels with
    | zero => cases ok
    | succ levels =>
      have fits := fits_of_part (not_misfit_of_stringKeys keys) (.self _)
      obtain ⟨all, rfl, plain⟩ := plain_of_fits (sound _ _ (.self _)) fits
      have built := convtable_built plain start ok once ahead
      have texts : ∀ pair ∈ all, ∃ str, pair.1 = .string str := by
        intro pair inside
        obtain ⟨str, is⟩ := keys _ _ (.self _) (entry pair) (List.mem_map_of_mem inside)
        exact ⟨str, LuaValue.scalar.inj is⟩
      cases key with
      | integer m =>
        simp only [follow, built.misses plain texts m] at found
        cases found
      | string str =>
        obtain ⟨value, result, ctx', after, begins, converted, later⟩ :=
          built.index plain (show IsKey (.string str) from trivial)
        simp only [follow, result] at found
        cases value with
        | table sub =>
          rcases rawget_cases (all.map entry) (.string str) with ⟨none_, _⟩ | ⟨e, inside, _, is⟩
          · rw [none_] at converted
            cases converted
          · have part := sound.value inside
            have names := stringKeys_value keys inside
            rw [is] at converted
            generalize e.2 = v at converted part names
            cases v with
            | scalar value =>
              cases value <;> cases converted
            | table size sub' =>
              obtain ⟨next, ok, same⟩ := map_ok.mp converted
              cases same
              exact ih part names begins ok later found
            | other type => cases converted
        | nil | real | string | boolean | integer => cases found
      | nil | boolean | number | lightuserdata =>
        simp only [follow, indexconf] at found
        cases found

theorem Guarded.stringKeys (guarded : Guarded levels sizearray entries)
    (sound : WellFormed (.table sizearray entries)) {conf : Conf}
    (accepted : newconf levels sizearray entries = .ok conf) :
    StringKeys (.table sizearray entries) := by
  have fits : ¬Misfit (.table sizearray entries) := by
    intro misfit
    obtain ⟨fault, raises, _⟩ := guarded.rejects misfit
    cases accepted.symm.trans raises
  intro size sub part e inside
  have is := fits_of_part fits part e inside
  obtain ⟨path, there⟩ := part_walk part sound fits
  obtain ⟨tbl, found, shows⟩ := guarded.apart conf accepted path size sub there
  obtain ⟨key, value⟩ := e
  cases key with
  | scalar key =>
    cases key with
    | string str => exact ⟨str, rfl⟩
    | integer n =>
      obtain ⟨shifted, same⟩ := toInt_shift is
      have low : -2 ^ 31 ≤ n.toInt := is.1
      have missed := guarded.misses conf accepted path tbl (n + 4294967296) found (by omega)
      have shown := shows (.integer n) is
      rw [rawget_of_mem (sound size sub part).nodup inside rfl, ← indexconf_congr same,
        missed] at shown
      have some_ : value ≠ nil := (sound size sub part).values _ inside
      cases value with
      | scalar value =>
        have nothing : Except.ok (Pushed.scalar .nil) = .ok (.scalar value) := shown
        cases nothing
        exact absurd rfl some_
      | table size sub =>
        obtain ⟨tbl, is⟩ := shown
        cases is
      | other type => exact shown.elim
    | nil | boolean | number | lightuserdata => exact is.elim
  | table | other => exact is.elim

theorem guarded_of_stringKeys (sound : WellFormed (.table sizearray entries))
    (keys : StringKeys (.table sizearray entries)) : Guarded levels sizearray entries where
  rejects misfit := absurd misfit (not_misfit_of_stringKeys keys)
  misses := by
    intro conf accepted path tbl n found _
    obtain ⟨made, ok, texts, root⟩ := follow_newconf accepted
    have once := (convtable_grows levels _ _ _ _ ok).2 List.nodup_nil
    rw [texts, root] at found
    rw [texts]
    exact follow_misses path sound keys List.nodup_nil ok once List.prefix_rfl found n
  apart _ accepted path size sub there :=
    fits_reads_back sound (not_misfit_of_stringKeys keys) accepted path size sub there

theorem guarded_iff (levels sizearray : Nat) (entries : Entries)
    (sound : WellFormed (.table sizearray entries)) :
    Guarded levels sizearray entries ↔
      (Refused levels (.table sizearray entries) ∨ Crowded (.table sizearray entries)) ∨
        StringKeys (.table sizearray entries) := by
  have decides := newconf_decides levels sizearray entries sound
  cases result : newconf levels sizearray entries with
  | error fault =>
    rw [result] at decides
    refine ⟨fun _ => .inl decides.1, fun _ => ⟨fun _ => ⟨fault, result, decides.2⟩, ?_, ?_⟩⟩
    · intro conf accepted
      cases result.symm.trans accepted
    · intro conf accepted
      cases result.symm.trans accepted
  | ok conf =>
    rw [result] at decides
    constructor
    · exact fun guarded => .inr (guarded.stringKeys sound result)
    · exact fun either => guarded_of_stringKeys sound (either.resolve_left decides.1)

theorem wellFormed_flat {all : List (Scalar × LuaValue)} (plain : Plain sizearray all)
    (flat : ∀ pair ∈ all, ∃ value, pair.2 = .scalar value) :
    WellFormed (.table sizearray (all.map entry)) := by
  intro size sub part
  generalize same : LuaValue.table size sub = target at part
  cases part with
  | self =>
    cases same
    refine ⟨?_, ?_, plain.border⟩
    · rw [List.pairwise_map]
      refine (List.pairwise_map.mp plain.nodup).imp ?_
      intro one two differ name is other
      exact differ (LuaValue.scalar.inj (is.trans other.symm))
    · intro e inside
      obtain ⟨pair, member, rfl⟩ := List.mem_map.mp inside
      exact plain.values pair member
  | value inside part =>
    obtain ⟨pair, member, rfl⟩ := List.mem_map.mp inside
    obtain ⟨value, is⟩ := flat pair member
    have scalar : (entry pair).2 = .scalar value := is
    rw [scalar] at part
    cases part
    cases same

theorem inner_wellFormed : WellFormed (.table 0 (inner.map entry)) :=
  wellFormed_flat inner_plain (by simp [inner])

theorem inner_guarded_iff : WellFormed (.table 0 (inner.map entry)) ∧
    (Guarded 10 0 (inner.map entry) ↔
      (Refused 10 (.table 0 (inner.map entry)) ∨ Crowded (.table 0 (inner.map entry))) ∨
        StringKeys (.table 0 (inner.map entry))) :=
  ⟨inner_wellFormed, guarded_iff 10 0 (inner.map entry) inner_wellFormed⟩

def tableKeyed : Entries := [(.table 0 [], .scalar (.integer 1))]

theorem tableKeyed_wellFormed : WellFormed (.table 0 tableKeyed) := by
  intro size sub part
  generalize same : LuaValue.table size sub = target at part
  cases part with
  | self =>
    cases same
    exact ⟨by simp [tableKeyed], by simp [tableKeyed, nil], by decide⟩
  | value inside part =>
    obtain rfl := List.mem_singleton.mp inside
    cases part
    cases same

theorem table_key_accepted :
    ¬∀ levels sizearray entries, WellFormed (.table sizearray entries) →
      Guarded levels sizearray entries := by
  intro all
  have guarded := all 10 0 tableKeyed tableKeyed_wellFormed
  have misfit : Misfit (.table 0 tableKeyed) :=
    ⟨0, tableKeyed, .self _, _, List.mem_singleton_self _, id⟩
  obtain ⟨fault, raises, _⟩ := guarded.rejects misfit
  have accepted : ∃ conf, newconf 10 0 tableKeyed = .ok conf := ⟨_, rfl⟩
  obtain ⟨conf, ok⟩ := accepted
  cases ok.symm.trans raises

end Pskynet.Sharedata
