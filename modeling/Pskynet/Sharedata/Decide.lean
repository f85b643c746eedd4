import Pskynet.Sharedata.Refused

set_option autoImplicit false

namespace Pskynet.Sharedata

open Lua ChainedHash Outcome

-- The string map gains the strings of `text`.
structure Adds (ctx after : Context) (text : List UInt8 → Prop) : Prop where
  grows : Grows ctx after
  members : ∀ str, str ∈ after.strings ↔ str ∈ ctx.strings ∨ text str

variable {ctx next after : Context} {text more : List UInt8 → Prop}

theorem Adds.trans (first : Adds ctx next text) (second : Adds next after more) :
    Adds ctx after fun str => text str ∨ more str := by
  refine ⟨first.grows.trans second.grows, fun str => ?_⟩
  rw [second.members, first.members, or_assoc]

theorem Adds.congr (adds : Adds ctx after text) (same : ∀ str, text str ↔ more str) :
    Adds ctx after more :=
  ⟨adds.grows, fun str => by rw [adds.members, same]⟩

theorem Adds.none (ctx : Context) : Adds ctx ctx fun _ => False :=
  ⟨.refl ctx, fun _ => (or_iff_left id).symm⟩

theorem stringindex_adds (ctx : Context) (str : List UInt8) :
    Adds ctx (stringindex ctx str).1 fun other => other = str := by
  refine ⟨stringindex_grows ctx str, fun other => ?_⟩
  unfold stringindex
  cases found : ctx.strings.idxOf? str with
  | some i =>
    obtain ⟨inside, value, _⟩ := List.idxOf?_eq_some_iff.mp found
    constructor
    · exact .inl
    · rintro (old | rfl)
      · exact old
      · rw [← value]
        exact List.getElem_mem inside
  | none => simp

-- A key in a node is the copy of `name`, also when the string map has grown.
def Names (ctx : Context) (key : Key) (name : Scalar) : Prop :=
  ∀ strings, ctx.strings <+: strings → Valid strings key ∧ pushkey strings key = name

theorem Names.later {key : Key} {name : Scalar} (names : Names ctx key name)
    (grows : Grows ctx after) : Names after key name :=
  fun strings ahead => names strings (grows.1.trans ahead)

theorem Names.eq_iff (once : ctx.strings.Nodup) {key other : Key} {name another : Scalar}
    (one : Names ctx key name) (two : Names ctx other another) : key = other ↔ name = another := by
  obtain ⟨valid, named⟩ := one ctx.strings List.prefix_rfl
  obtain ⟨sound, called⟩ := two ctx.strings List.prefix_rfl
  constructor
  · rintro rfl
    exact named.symm.trans called
  · intro same
    exact pushkey_inj once valid sound (named.trans (same.trans called.symm))

variable {sizearray size levels : Nat} {name : Scalar} {v : LuaValue}
  {done all rest : List (Scalar × LuaValue)} {entries : Entries}

theorem ishashkey_names (ctx : Context) (is : IsKey name) (outside : ¬InArray sizearray name) :
    ∃ after key, ishashkey ctx sizearray (.scalar name) = (after, .inr (key, hashKey name)) ∧
      Names after key name ∧ Adds ctx after fun str => Scalar.string str = name := by
  obtain ⟨after, key, found, names⟩ := ishashkey_hash ctx is outside
  refine ⟨after, key, found, names, ?_⟩
  cases name with
  | integer n =>
    have same : ctx = after := by
      have range : ¬(0 < n.toInt32.toInt ∧ n.toInt32.toInt ≤ sizearray) := by
        rw [toInt32_toInt is.1 is.2]
        exact outside
      simp only [ishashkey, integerKey] at found
      rw [if_neg range] at found
      exact (Prod.mk.inj found).1
    rw [← same]
    exact (Adds.none ctx).congr fun str => by simp
  | string str =>
    obtain ⟨rfl, -⟩ := Prod.mk.inj found
    exact (stringindex_adds ctx str).congr fun other => by simp
  | nil | boolean | number | lightuserdata => exact is.elim

theorem headAt_append (names more : List Scalar) (p : Nat) :
    headAt size (names ++ more) p = (headAt size names p).or (headAt size more p) :=
  List.find?_append

-- What `convert` does with the tables in the entries.
def Deciding (convert : Convert) (levels : Nat) (v : LuaValue) : Prop :=
  ∀ ctx : Context, ctx.strings.Nodup → Decides Raised (Refused levels v) (setvalue convert ctx v)
    fun set => Adds ctx set.1 (Text v)

-- The strings that come with the keys and values in `done`.
def Taken (sizearray : Nat) (places : List (Scalar × LuaValue) → Scalar → Prop)
    (done : List (Scalar × LuaValue)) (str : List UInt8) : Prop :=
  Scalar.string str ∈ hashKeys sizearray done ∨
    Somewhere (fun before pair => places before pair.1 ∧ Text pair.2 str) done

theorem taken_append (places : List (Scalar × LuaValue) → Scalar → Prop) (str : List UInt8) :
    Taken sizearray places (done ++ [(name, v)]) str ↔ Taken sizearray places done str ∨
      (¬InArray sizearray name ∧ Scalar.string str = name) ∨ (places done name ∧ Text v str) := by
  unfold Taken
  have last : Scalar.string str ∈ hashKeys sizearray [(name, v)] ↔
      Scalar.string str = name ∧ ¬InArray sizearray (.string str) := by
    rw [mem_hashKeys, List.map_singleton, List.mem_singleton]
  rw [hashKeys_append, List.mem_append, somewhere_append_singleton, last]
  constructor
  · rintro ((old | ⟨rfl, outside⟩) | (there | here))
    · exact .inl (.inl old)
    · exact .inr (.inl ⟨outside, rfl⟩)
    · exact .inl (.inr there)
    · exact .inr (.inr here)
  · rintro ((old | there) | (⟨outside, rfl⟩ | here))
    · exact .inl (.inl old)
    · exact .inr (.inl there)
    · exact .inl (.inr ⟨rfl, outside⟩)
    · exact .inr (.inr here)

def headed (sizearray size : Nat) (all : List (Scalar × LuaValue)) (name : Scalar) : Bool :=
  headAt size (hashKeys sizearray all) (position size name) = some name

-- The first pass over `done`, a part of `all`.
structure Opening (start : Context) (sizearray size : Nat) (all done : List (Scalar × LuaValue))
    (made : Context × Table Value) : Prop where
  once : made.1.strings.Nodup
  adds : Adds start made.1 (Taken sizearray (Early sizearray size) done)
  array : made.2.array.length = sizearray
  slots : made.2.hash.length = size
  heads : ∀ p < size,
    (made.2.hash[p]? = some none ∧ headAt size (hashKeys sizearray done) p = none) ∨
      ∃ slot name, Filled made.2.hash p slot ∧
        headAt size (hashKeys sizearray done) p = some name ∧ Names made.1 slot.key name
  count : (items made.2.hash).length ≤ (hashKeys sizearray done).countP (headed sizearray size all)

section Opening

variable {convert : Convert} {start : Context} {made : Context × Table Value}

theorem Opening.array_step (opening : Opening start sizearray size all done made)
    (deciding : Deciding convert levels v) (is : IsKey name) (inside : InArray sizearray name) :
    Decides Raised (Early sizearray size done name ∧ Refused levels v)
      (placeNocolliding convert made (entry (name, v)))
      (Opening start sizearray size all (done ++ [(name, v)])) := by
  obtain ⟨n, _, _, _, found⟩ := ishashkey_array made.1 is inside
  simp only [placeNocolliding, entry, opening.array, found, setarray]
  have same : hashKeys sizearray (done ++ [(name, v)]) = hashKeys sizearray done := by
    rw [hashKeys_append]
    simp [hashKeys, inside]
  refine decides_map (decides_mono (deciding made.1 opening.once) ?_ ?_)
  · exact ⟨fun refused => ⟨.inl inside, refused⟩, And.right⟩
  · intro set _ adds
    refine ⟨adds.grows.2 opening.once, ?_, ?_, opening.slots, ?_, ?_⟩
    · refine (opening.adds.trans adds).congr fun str => ?_
      rw [taken_append]
      have early : Early sizearray size done name := .inl inside
      simp [inside, early]
    · rw [List.length_set]
      exact opening.array
    · rw [same]
      intro p small
      refine (opening.heads p small).imp id ?_
      rintro ⟨slot, head, filled, first, names⟩
      exact ⟨slot, head, filled, first, names.later adds.grows⟩
    · rw [same]
      exact opening.count

theorem Opening.hash_step (opening : Opening start sizearray size all done made)
    (deciding : Deciding convert levels v) (is : IsKey name) (outside : ¬InArray sizearray name)
    (room : 0 < size) (split : all = done ++ (name, v) :: rest) :
    Decides Raised (Early sizearray size done name ∧ Refused levels v)
      (placeNocolliding convert made (entry (name, v)))
      (Opening start sizearray size all (done ++ [(name, v)])) := by
  obtain ⟨ctx, key, found, names, named⟩ := ishashkey_names made.1 is outside
  have small : position size name < size := Nat.mod_lt _ room
  have place : mainpos made.2.hash (hashKey name).toNat = position size name := by
    rw [mainpos, opening.slots, position]
  have known : hashKeys sizearray (done ++ [(name, v)]) = hashKeys sizearray done ++ [name] := by
    rw [hashKeys_append]
    simp [hashKeys, outside]
  have last (p : Nat) : headAt size [name] p = if position size name = p then some name else none := by
    simp [headAt, List.find?_singleton]
  simp only [placeNocolliding, entry, opening.array, found, place]
  rcases opening.heads _ small with ⟨vacant, none_⟩ | ⟨slot, first, filled, head, called⟩
  · have early : Early sizearray size done name := .inr none_
    rw [vacant]
    refine decides_map (decides_mono (deciding ctx (named.grows.2 opening.once)) ?_ ?_)
    · exact ⟨fun refused => ⟨early, refused⟩, And.right⟩
    · intro set _ adds
      have empty : made.2.hash[mainpos made.2.hash (hashKey name).toNat]? = some none := by
        rw [place]
        exact vacant
      refine ⟨adds.grows.2 (named.grows.2 opening.once), ?_, opening.array, ?_, ?_, ?_⟩
      · refine ((opening.adds.trans named).trans adds).congr fun str => ?_
        rw [taken_append, or_assoc]
        simp [outside, early]
      · rw [← opening.slots]
        exact List.length_set
      · intro p inside
        rw [known, headAt_append, last]
        by_cases here : position size name = p
        · refine .inr ⟨_, name, filled_set.mpr (.inl ⟨?_, ?_, rfl⟩), ?_, names.later adds.grows⟩
          · rw [place, here]
          · rw [place, opening.slots]
            exact small
          · rw [← here, none_, if_pos rfl]
            rfl
        · rw [if_neg here, Option.or_none]
          have apart : p ≠ mainpos made.2.hash (hashKey name).toNat := fun same =>
            here (place.symm.trans same.symm)
          refine (opening.heads p inside).imp ?_ ?_
          · rintro ⟨free, first⟩
            refine ⟨?_, first⟩
            show (made.2.hash.set _ _)[p]? = _
            rw [List.getElem?_set_ne apart.symm]
            exact free
          · rintro ⟨slot, head, filled, first, called⟩
            exact ⟨slot, head, filled_set.mpr (.inr ⟨apart, filled⟩), first,
              called.later (named.grows.trans adds.grows)⟩
      · -- The new key is the first one with its main position.
        have kept : headed sizearray size all name = true := by
          have later : hashKeys sizearray all =
              hashKeys sizearray done ++ ([name] ++ hashKeys sizearray rest) := by
            rw [split, hashKeys_append]
            simp [hashKeys, outside]
          refine decide_eq_true ?_
          rw [later, headAt_append, none_, headAt_append, last, if_pos rfl]
          rfl
        have more : (items (putMain made.2.hash key (hashKey name).toNat set.2)).length =
            (items made.2.hash).length + 1 := (items_putMain empty).length_eq
        rw [known, List.countP_append, List.countP_singleton, if_pos kept]
        show (items (putMain made.2.hash key _ set.2)).length ≤ _
        rw [more]
        exact Nat.succ_le_succ opening.count
  · have seen : ¬Early sizearray size done name := by
      rintro (inside | none_)
      · exact outside inside
      · rw [head] at none_
        cases none_
    rw [show made.2.hash[position size name]? = some (some slot) from filled]
    refine ⟨fun both => seen both.1, named.grows.2 opening.once, ?_, opening.array, opening.slots, ?_, ?_⟩
    · refine (opening.adds.trans named).congr fun str => ?_
      rw [taken_append]
      simp [outside, seen]
    · intro p inside
      rw [known, headAt_append, last]
      refine (opening.heads p inside).imp ?_ ?_
      · rintro ⟨free, first⟩
        have apart : position size name ≠ p := by
          rintro rfl
          rw [head] at first
          cases first
        rw [first, if_neg apart]
        exact ⟨free, rfl⟩
      · rintro ⟨slot, head, filled, first, called⟩
        rw [first]
        exact ⟨slot, head, filled, rfl, called.later named.grows⟩
    · rw [known, List.countP_append]
      exact Nat.le_add_right_of_le opening.count

end Opening

-- The second pass over `done`, a part of `all`.
structure Closing (start : Context) (sizearray size : Nat) (all done : List (Scalar × LuaValue))
    (made : Context × Table Value) : Prop where
  once : made.1.strings.Nodup
  adds : Adds start made.1 (Taken sizearray (fun _ name => Late sizearray size all name) done)
  array : made.2.array.length = sizearray
  slots : made.2.hash.length = size
  heads : ∀ name ∈ hashKeys sizearray all, ∃ slot first,
    Filled made.2.hash (position size name) slot ∧
      headAt size (hashKeys sizearray all) (position size name) = some first ∧
      Names made.1 slot.key first
  count : (items made.2.hash).length ≤ (hashKeys sizearray all).countP (headed sizearray size all) +
    (hashKeys sizearray done).countP fun name => !headed sizearray size all name

section Closing

variable {convert : Convert} {start : Context} {made : Context × Table Value}

theorem Opening.closing (opening : Opening start sizearray size all all made) (room : 0 < size) :
    Closing made.1 sizearray size all [] made where
  once := opening.once
  adds := (Adds.none made.1).congr fun str => by
    simp [Taken, hashKeys, not_somewhere_nil]
  array := opening.array
  slots := opening.slots
  heads := by
    intro name inside
    rcases opening.heads _ (Nat.mod_lt _ room) with ⟨_, none_⟩ | ⟨slot, first, filled, head, names⟩
    · rw [headAt, List.find?_eq_none] at none_
      exact absurd (decide_eq_true rfl) (none_ name inside)
    · exact ⟨slot, first, filled, head, names⟩
  count := Nat.le_add_right_of_le opening.count

theorem Closing.array_step (closing : Closing start sizearray size all done made)
    (is : IsKey name) (inside : InArray sizearray name) :
    Decides Raised (Late sizearray size all name ∧ Refused levels v)
      (placeColliding convert made (entry (name, v)))
      (Closing start sizearray size all (done ++ [(name, v)])) := by
  obtain ⟨n, _, _, _, found⟩ := ishashkey_array made.1 is inside
  simp only [placeColliding, entry, closing.array, found]
  have same : hashKeys sizearray (done ++ [(name, v)]) = hashKeys sizearray done := by
    rw [hashKeys_append]
    simp [hashKeys, inside]
  refine ⟨fun both => both.1.1 inside, closing.once, ?_, closing.array, closing.slots,
    closing.heads, ?_⟩
  · refine closing.adds.congr fun str => ?_
    rw [taken_append]
    simp [inside, Late]
  · rw [same]
    exact closing.count

theorem Closing.free (closing : Closing start sizearray size all done made)
    (split : all = done ++ (name, v) :: rest) (late : Late sizearray size all name)
    (enough : (hashKeys sizearray all).length ≤ size) :
    ∃ free, made.2.hash.findIdx? Option.isNone = some free ∧ made.2.hash[free]? = some none := by
  refine free_of_lt (lt_of_le_of_lt closing.count ?_)
  have other : headed sizearray size all name = false := decide_eq_false late.2
  have part : (hashKeys sizearray done).countP (fun name => !headed sizearray size all name) <
      (hashKeys sizearray all).countP fun name => !headed sizearray size all name := by
    have parts : hashKeys sizearray all =
        hashKeys sizearray done ++ name :: hashKeys sizearray rest := by
      rw [split, hashKeys_append]
      simp [hashKeys, late.1]
    rw [parts, List.countP_append, List.countP_cons_of_pos (by simp [other])]
    omega
  have both := List.length_eq_countP_add_countP (headed sizearray size all)
    (l := hashKeys sizearray all)
  have same : (hashKeys sizearray all).countP (fun name => !headed sizearray size all name) =
      (hashKeys sizearray all).countP fun name => ¬headed sizearray size all name = true := by
    refine List.countP_congr fun name _ => ?_
    simp
  rw [closing.slots]
  omega

theorem Closing.hash_step (closing : Closing start sizearray size all done made)
    (deciding : Deciding convert levels v) (is : IsKey name) (outside : ¬InArray sizearray name)
    (split : all = done ++ (name, v) :: rest) (enough : (hashKeys sizearray all).length ≤ size) :
    Decides Raised (Late sizearray size all name ∧ Refused levels v)
      (placeColliding convert made (entry (name, v)))
      (Closing start sizearray size all (done ++ [(name, v)])) := by
  obtain ⟨ctx, key, found, names, named⟩ := ishashkey_names made.1 is outside
  have place : mainpos made.2.hash (hashKey name).toNat = position size name := by
    rw [mainpos, closing.slots, position]
  have member : name ∈ hashKeys sizearray all := by
    rw [split, hashKeys_append]
    simp [hashKeys, outside]
  have known : hashKeys sizearray (done ++ [(name, v)]) = hashKeys sizearray done ++ [name] := by
    rw [hashKeys_append]
    simp [hashKeys, outside]
  obtain ⟨main, first, filled, head, called⟩ := closing.heads name member
  have once := named.grows.2 closing.once
  simp only [placeColliding, entry, closing.array, found, place]
  rw [show made.2.hash[position size name]? = some (some main) from filled]
  have taken : main.key = key ↔ first = name := (called.later named.grows).eq_iff once names
  by_cases same : first = name
  · have early : ¬Late sizearray size all name := fun late => late.2 (same ▸ head)
    simp only [taken.mpr same, if_true]
    refine ⟨fun both => early both.1, once, ?_, closing.array, closing.slots, ?_, ?_⟩
    · refine (closing.adds.trans named).congr fun str => ?_
      rw [taken_append]
      simp [outside, early]
    · intro other inside
      obtain ⟨slot, first, filled, head, called⟩ := closing.heads other inside
      exact ⟨slot, first, filled, head, called.later named.grows⟩
    · rw [known, List.countP_append, ← Nat.add_assoc]
      exact Nat.le_add_right_of_le closing.count
  · have late : Late sizearray size all name :=
      ⟨outside, fun own => same (Option.some.inj (head.symm.trans own))⟩
    have other : main.key ≠ key := fun equal => same (taken.mp equal)
    obtain ⟨free, search, vacant⟩ := closing.free split late enough
    have there : Filled made.2.hash (mainpos made.2.hash (hashKey name).toNat) main := by
      rw [place]
      exact filled
    simp only [other, if_false, search]
    refine decides_map (decides_mono (deciding ctx once) ?_ ?_)
    · exact ⟨fun refused => ⟨late, refused⟩, And.right⟩
    · intro set _ adds
      refine ⟨adds.grows.2 once, ?_, closing.array, ?_, ?_, ?_⟩
      · refine ((closing.adds.trans named).trans adds).congr fun str => ?_
        rw [taken_append, or_assoc]
        simp [outside, late]
      · rw [← closing.slots]
        simp [putFree]
      · intro another inside
        obtain ⟨slot, first, filled, head, called⟩ := closing.heads another inside
        have stays := called.later (named.grows.trans adds.grows)
        by_cases here : position size another = mainpos made.2.hash (hashKey name).toNat
        · rw [here] at filled
          obtain rfl := filled.unique there
          exact ⟨_, first, (filled_putFree there vacant).mpr (.inr (.inl ⟨here, rfl⟩)), head, stays⟩
        · refine ⟨slot, first, (filled_putFree there vacant).mpr (.inr (.inr ⟨?_, here, filled⟩)),
            head, stays⟩
          intro at_
          rw [at_] at filled
          cases vacant.symm.trans filled
      · have more : (items (putFree made.2.hash main free key (hashKey name).toNat set.2)).length =
            (items made.2.hash).length + 1 := (items_putFree there vacant).length_eq
        have lost : headed sizearray size all name = false := decide_eq_false late.2
        rw [known, List.countP_append, List.countP_singleton, lost]
        show (items (putFree made.2.hash main free key _ set.2)).length ≤ _
        rw [more]
        have before := closing.count
        simp only [Bool.not_false, if_true]
        omega

end Closing

theorem refused_succ_iff : Refused (levels + 1) (.table sizearray entries) ↔
    (∃ e ∈ entries, Unkeyed e.1) ∨ ∃ v, Copied sizearray entries v ∧ Refused levels v := by
  constructor
  · rintro (_ | _ | _ | unkeyed | ⟨copied, refused⟩)
    · exact .inl unkeyed
    · exact .inr ⟨_, copied, refused⟩
  · rintro (unkeyed | ⟨v, copied, refused⟩)
    · exact .key unkeyed
    · exact .value copied refused

theorem text_iff {str : List UInt8} : Text (.table sizearray entries) str ↔
    Scalar.string str ∈ hashKeys sizearray (copiedPairs entries) ∨
      ∃ v, Copied sizearray entries v ∧ Text v str := by
  constructor
  · rintro (_ | inside | ⟨copied, text⟩)
    · exact .inl inside
    · exact .inr ⟨_, copied, text⟩
  · rintro (inside | ⟨v, copied, text⟩)
    · exact .key inside
    · exact .value copied text

theorem copied_iff (P : LuaValue → Prop) : (∃ v, Copied sizearray entries v ∧ P v) ↔
    Somewhere (fun done pair => Early sizearray (hashsize sizearray entries) done pair.1 ∧ P pair.2)
      (copiedPairs entries) ∨
    Somewhere (fun _ pair =>
      Late sizearray (hashsize sizearray entries) (copiedPairs entries) pair.1 ∧ P pair.2)
      (copiedPairs entries) := by
  constructor
  · rintro ⟨v, ⟨before, pair, after, parts, rfl, early | late⟩, holds⟩
    · exact .inl ⟨before, pair, after, parts, early, holds⟩
    · exact .inr ⟨before, pair, after, parts, late, holds⟩
  · rintro (⟨before, pair, after, parts, early, holds⟩ | ⟨before, pair, after, parts, late, holds⟩)
    · exact ⟨pair.2, ⟨before, pair, after, parts, rfl, .inl early⟩, holds⟩
    · exact ⟨pair.2, ⟨before, pair, after, parts, rfl, .inr late⟩, holds⟩

theorem inArray_of_not_slotted (border : sizearray < 2 ^ 31) (key : LuaValue)
    (free : slotted sizearray key = false) :
    InArray sizearray (copiedKey key) ∧ ∃ n : Int64, key = .scalar (.integer n) ∧ 0 < n.toInt ∧
      n.toInt ≤ sizearray := by
  cases key with
  | scalar key =>
    cases key with
    | integer n =>
      have range : 0 < n.toInt ∧ n.toInt ≤ sizearray := by simpa [slotted] using free
      refine ⟨?_, n, rfl, range⟩
      have narrow := toInt64_toInt32 (n := n) (by omega) (by omega)
      simp only [copiedKey, narrow]
      exact range
    | nil | boolean | number | string | lightuserdata => cases free
  | table | other => cases free

theorem hashKeys_le (border : sizearray < 2 ^ 31) (entries : Entries) :
    (hashKeys sizearray (copiedPairs entries)).length ≤ hashsize sizearray entries := by
  unfold hashKeys copiedPairs hashsize
  rw [List.map_map, ← List.countP_eq_length_filter, List.countP_map]
  refine List.countP_mono_left fun e _ outside => ?_
  by_contra free
  have inside := inArray_of_not_slotted border e.1 (Bool.eq_false_of_not_eq_true free)
  exact absurd inside.1 (of_decide_eq_true outside)

theorem rawget_of_mem {key : Scalar} {e : LuaValue × LuaValue}
    (nodup : entries.Pairwise fun e other => ∀ name, e.1 = .scalar name → other.1 ≠ .scalar name)
    (inside : e ∈ entries) (is : e.1 = .scalar key) : rawget entries key = e.2 := by
  induction entries with
  | nil => cases inside
  | cons first entries ih =>
    rw [List.pairwise_cons] at nodup
    rcases List.mem_cons.mp inside with rfl | later
    · rw [rawget, if_pos ((isScalar_iff _ _).mpr is)]
    · have other : ¬first.1.isScalar key = true := by
        rw [isScalar_iff]
        exact fun same => nodup.1 e later key same is
      rw [rawget, if_neg other]
      exact ih nodup.2 later

section Table

variable {convert : Convert} {made : Context × Table Value}

theorem fillarray_decides (table : LuaTable sizearray entries)
    (deciding : ∀ e ∈ entries, Deciding convert levels e.2)
    (blank : Deciding convert levels Lua.nil) (once : made.1.strings.Nodup)
    (empty : hashsize sizearray entries = 0) :
    Decides Raised (∃ v, Copied sizearray entries v ∧ Refused levels v)
      (fillarray convert made sizearray entries)
      (fun after => Adds made.1 after.1 (Text (.table sizearray entries))) := by
  have places : ∀ e ∈ entries, InArray sizearray (copiedKey e.1) ∧ ∃ n : Int64,
      e.1 = .scalar (.integer n) ∧ 0 < n.toInt ∧ n.toInt ≤ sizearray := by
    intro e inside
    have free := (List.countP_eq_zero.mp empty) e inside
    exact inArray_of_not_slotted table.border e.1 (Bool.eq_false_of_not_eq_true free)
  have border := table.border
  have noKeys : hashKeys sizearray (copiedPairs entries) = [] :=
    List.length_eq_zero_iff.mp (Nat.le_zero.mp (empty ▸ hashKeys_le table.border entries))
  -- The values that are read by their index are those of the entries.
  have all (P : LuaValue → Prop) (blank : ¬P Lua.nil) :
      (∃ v, Copied sizearray entries v ∧ P v) ↔
        ∃ i ∈ List.range sizearray, P (rawgeti entries (i + 1)) := by
    constructor
    · rintro ⟨v, ⟨before, pair, after, parts, rfl, _⟩, holds⟩
      have member : pair ∈ copiedPairs entries := by simp [parts]
      obtain ⟨e, inside, rfl⟩ := List.mem_map.mp member
      obtain ⟨_, n, is, low, high⟩ := places e inside
      refine ⟨n.toInt.toNat - 1, List.mem_range.mpr (by omega), ?_⟩
      have same : Int64.ofNat (n.toInt.toNat - 1 + 1) = n := by
        rw [← Int64.toInt_inj, toInt_ofNat (by omega)]
        omega
      rw [rawgeti, same, rawget_of_mem table.nodup inside is]
      exact holds
    · rintro ⟨i, _, holds⟩
      rcases rawget_cases entries (.integer (Int64.ofNat (i + 1))) with ⟨none_, _⟩ | ⟨e, inside, _, is⟩
      · rw [rawgeti, none_] at holds
        exact absurd holds blank
      · rw [rawgeti, is] at holds
        obtain ⟨before, after, parts⟩ := List.append_of_mem inside
        refine ⟨e.2, ⟨copiedPairs before, (copiedKey e.1, e.2), copiedPairs after, ?_, rfl, ?_⟩, holds⟩
        · rw [parts]
          simp [copiedPairs]
        · exact .inl (.inl (places e inside).1)
  have value (i : Nat) : Deciding convert levels (rawgeti entries (i + 1)) := by
    rcases rawget_cases entries (.integer (Int64.ofNat (i + 1))) with ⟨none_, _⟩ | ⟨e, inside, _, is⟩
    · rw [rawgeti, none_]
      exact blank
    · rw [rawgeti, is]
      exact deciding e inside
  refine decides_mono (foldlM_decides
    (fun _ i => Refused levels (rawgeti entries (i + 1)))
    (fun done after => after.1.strings.Nodup ∧ Adds made.1 after.1 fun str =>
      Somewhere (fun _ i => Text (rawgeti entries (i + 1)) str) done)
    (List.range sizearray) made ?_ ?_) ?_ ?_
  · refine ⟨once, (Adds.none made.1).congr fun str => ?_⟩
    simp [not_somewhere_nil]
  · rintro done i rest now _ ⟨once, adds⟩
    refine decides_map (decides_mono (value i now.1 once) Iff.rfl ?_)
    intro set _ more
    refine ⟨more.grows.2 once, (adds.trans more).congr fun str => ?_⟩
    rw [somewhere_append_singleton]
  · rw [somewhere_mem, all (Refused levels) (fun refused => by cases refused)]
  · rintro after _ ⟨_, adds⟩
    refine adds.congr fun str => ?_
    rw [somewhere_mem, text_iff, noKeys, all (fun v => Text v str) (fun text => by cases text)]
    simp

theorem fill_decides (table : LuaTable sizearray entries)
    (deciding : ∀ e ∈ entries, Deciding convert levels e.2) (once : made.1.strings.Nodup)
    (array : made.2.array.length = sizearray)
    (hash : made.2.hash = List.replicate (hashsize sizearray entries) none)
    (room : 0 < hashsize sizearray entries) :
    Decides Raised (∃ v, Copied sizearray entries v ∧ Refused levels v)
      (fillnocolliding convert made entries >>= fun made => fillcolliding convert made entries)
      (fun after => Adds made.1 after.1 (Text (.table sizearray entries))) := by
  have value : ∀ pair ∈ copiedPairs entries, IsKey pair.1 ∧ Deciding convert levels pair.2 := by
    intro pair inside
    obtain ⟨e, member, rfl⟩ := List.mem_map.mp inside
    exact ⟨copiedKey_isKey e.1, deciding e member⟩
  have first : fillnocolliding convert made entries = (copiedPairs entries).foldlM
      (fun made pair => placeNocolliding convert made (entry pair)) made := by
    unfold fillnocolliding copiedPairs
    rw [List.foldlM_map]
    congr 1
    funext made e
    exact placeNocolliding_copiedKey convert made e
  have second (made : Context × Table Value) :
      fillcolliding convert made entries = (copiedPairs entries).foldlM
        (fun made pair => placeColliding convert made (entry pair)) made := by
    unfold fillcolliding copiedPairs
    rw [List.foldlM_map]
    congr 1
    funext made e
    exact placeColliding_copiedKey convert made e
  have size := hashKeys_le table.border entries
  rw [first, copied_iff (Refused levels)]
  refine decides_bind (foldlM_decides _ (Opening made.1 sizearray (hashsize sizearray entries)
    (copiedPairs entries)) _ made ?_ ?_) ?_
  · refine ⟨once, (Adds.none made.1).congr fun str => ?_, array, ?_, ?_, ?_⟩
    · simp [Taken, hashKeys, not_somewhere_nil]
    · rw [hash, List.length_replicate]
    · intro p inside
      refine .inl ⟨?_, rfl⟩
      rw [hash, List.getElem?_replicate_of_lt inside]
    · rw [hash]
      simp [items, List.reduceOption_replicate_none]
  · rintro done ⟨name, v⟩ rest now split opening
    obtain ⟨is, decides⟩ := value (name, v) (by simp [split])
    by_cases inside : InArray sizearray name
    · exact opening.array_step decides is inside
    · exact opening.hash_step decides is inside room split
  · intro middle opening
    rw [second]
    refine decides_mono (foldlM_decides _ (Closing middle.1 sizearray (hashsize sizearray entries)
      (copiedPairs entries)) _ middle (opening.closing room) ?_) Iff.rfl ?_
    · rintro done ⟨name, v⟩ rest now split closing
      obtain ⟨is, decides⟩ := value (name, v) (by simp [split])
      by_cases inside : InArray sizearray name
      · exact closing.array_step is inside
      · exact closing.hash_step decides is inside split size
    · intro after _ closing
      refine (opening.adds.trans closing.adds).congr fun str => ?_
      unfold Taken
      rw [text_iff, copied_iff fun v => Text v str]
      tauto

end Table

theorem WellFormed.value {e : LuaValue × LuaValue} (sound : WellFormed (.table sizearray entries))
    (inside : e ∈ entries) : WellFormed e.2 :=
  fun _ _ part => sound _ _ (.value inside part)

theorem setvalue_nil_decides (convert : Convert) : Deciding convert levels Lua.nil := by
  intro ctx _
  refine ⟨fun refused => (by cases refused), (Adds.none ctx).congr fun str => ?_⟩
  exact ⟨False.elim, fun text => by cases text⟩

theorem convtable_decides (levels : Nat) (ctx : Context) (sizearray : Nat) (entries : Entries)
    (sound : WellFormed (.table sizearray entries)) (once : ctx.strings.Nodup) :
    Decides Raised (Refused levels (.table sizearray entries)) (convtable levels ctx sizearray entries)
      (fun made => Adds ctx made.1 (Text (.table sizearray entries))) := by
  induction levels generalizing ctx sizearray entries with
  | zero => exact ⟨.deep sizearray entries, trivial⟩
  | succ levels ih =>
    have deciding : ∀ e ∈ entries, Deciding (convtable levels) levels e.2 := by
      intro e inside ctx once
      have part := sound.value inside
      generalize e.2 = v at part
      cases v with
      | scalar value =>
        cases value with
        | string str =>
          refine ⟨fun refused => (by cases refused), (stringindex_adds ctx str).congr fun other => ?_⟩
          exact ⟨fun same => same ▸ .string str, fun text => by cases text; rfl⟩
        | lightuserdata address => exact ⟨.pointer levels address, trivial⟩
        | nil | boolean | integer | number =>
          refine ⟨fun refused => (by cases refused), (Adds.none ctx).congr fun str => ?_⟩
          exact ⟨False.elim, fun text => by cases text⟩
      | table sub subentries => exact decides_map (ih ctx sub subentries part once)
      | other type => exact ⟨.other levels type, trivial⟩
    have table := sound sizearray entries (.self _)
    simp only [convtable]
    refine decides_mono (decides_bind (countsize_decides entries) ?_) refused_succ_iff.symm
      fun _ _ adds => adds
    rintro size rfl
    by_cases empty : hashsize sizearray entries = 0
    · rw [if_pos empty]
      exact fillarray_decides table deciding (setvalue_nil_decides _) once empty
    · rw [if_neg empty]
      exact fill_decides table deciding once List.length_replicate rfl (Nat.pos_of_ne_zero empty)

def Crowded (root : LuaValue) : Prop :=
  ∃ strings : List (List UInt8), strings.Nodup ∧ (∀ str ∈ strings, Text root str) ∧
    maxStack < strings.length + 32

theorem newconf_decides (levels sizearray : Nat) (entries : Entries)
    (sound : WellFormed (.table sizearray entries)) :
    Decides Raised (Refused levels (.table sizearray entries) ∨ Crowded (.table sizearray entries))
      (newconf levels sizearray entries) (fun _ => True) := by
  refine decides_bind (convtable_decides levels ⟨[]⟩ sizearray entries sound List.nodup_nil) ?_
  intro made adds
  have once : made.1.strings.Nodup := adds.grows.2 List.nodup_nil
  have members (str : List UInt8) : str ∈ made.1.strings ↔ Text (.table sizearray entries) str := by
    rw [adds.members]
    simp
  have crowded : Crowded (.table sizearray entries) ↔
      maxStack < made.1.stringIndex + 3 + 20 + 8 := by
    unfold Context.stringIndex
    constructor
    · rintro ⟨strings, nodup, all, many⟩
      have few : strings.length ≤ made.1.strings.length :=
        (nodup.subperm fun str inside => (members str).mpr (all str inside)).length_le
      omega
    · intro many
      exact ⟨made.1.strings, once, fun str inside => (members str).mp inside, by omega⟩
  split_ifs with many
  · exact ⟨crowded.mpr many, trivial⟩
  · exact ⟨fun full => many (crowded.mp full), trivial⟩

end Pskynet.Sharedata
