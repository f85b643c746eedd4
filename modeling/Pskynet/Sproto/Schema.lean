import Mathlib.Tactic

set_option autoImplicit false

namespace Pskynet.Sproto

inductive FieldType where
  | integer
  | boolean
  | string
  | struct
  deriving DecidableEq, Repr

-- `st` is the number of the type that a struct field has, `key` the tag of its main index.
structure Field where
  tag : Nat
  type : FieldType
  array : Bool
  name : List UInt8
  st : Nat
  key : Option Nat
  deriving DecidableEq, Repr

structure SprotoType where
  f : List Field
  base : Int
  maxn : Nat

abbrev Schema := Nat → SprotoType

-- The slots that `import_type` adds for the gaps between tags.
def gaps : Int → List Field → Nat
  | _, [] => 0
  | last, field :: rest => (if (field.tag : Int) > last + 1 then 1 else 0) + gaps field.tag rest

-- What `import_type` makes of the fields that it has read.
def importType (fields : List Field) : SprotoType where
  f := fields
  base :=
    match fields.head?, fields.getLast? with
    | some first, some last =>
        if (last.tag : Int) - first.tag + 1 = fields.length then first.tag else -1
    | _, _ => 0
  maxn := fields.length + gaps (-1) fields

def searchTag (fields : List Field) (tag : Int) : Nat → Nat → Nat → Option Field
  | 0, _, _ => none
  | turns + 1, first, last =>
      if first < last then
        let mid := (first + last) / 2
        match fields[mid]? with
        | none => none
        | some field =>
            if field.tag = tag then some field
            else if tag > field.tag then searchTag fields tag turns (mid + 1) last
            else searchTag fields tag turns first mid
      else none

def findtag (st : SprotoType) (tag : Int) : Option Field :=
  if st.base ≥ 0 then
    if tag - st.base < 0 ∨ tag - st.base ≥ st.f.length then none
    else st.f[(tag - st.base).toNat]?
  else searchTag st.f tag (st.f.length + 1) 0 st.f.length

-- A type as `import_type` builds it, with the tags that a header word holds, in strictly
-- ascending order; the parser takes no name twice.
structure Ascending (st : SprotoType) : Prop where
  imported : st = importType st.f
  small : ∀ field ∈ st.f, field.tag ≤ 0x7ffe
  tags : st.f.Pairwise fun first second => first.tag < second.tag
  names : (st.f.map (·.name)).Nodup

theorem tag_lt {fields : List Field}
    (tags : fields.Pairwise fun first second => first.tag < second.tag) (i j : Nat)
    (before : i < j) (bound : j < fields.length) :
    (fields.get ⟨i, by omega⟩).tag < (fields.get ⟨j, bound⟩).tag :=
  List.pairwise_iff_get.mp tags ⟨i, by omega⟩ ⟨j, bound⟩ before

theorem searchTag_sound (fields : List Field) (tag : Int) (turns first last : Nat) (field : Field)
    (found : searchTag fields tag turns first last = some field) :
    field ∈ fields ∧ field.tag = tag := by
  induction turns generalizing first last with
  | zero => simp [searchTag] at found
  | succ turns ih =>
    rw [searchTag] at found
    split at found
    · dsimp only at found
      split at found
      · cases found
      · rename_i middle inside
        split_ifs at found with here above
        · cases found
          exact ⟨List.mem_of_getElem? inside, here⟩
        · exact ih _ _ found
        · exact ih _ _ found
    · cases found

theorem searchTag_complete (fields : List Field)
    (tags : fields.Pairwise fun first second => first.tag ≤ second.tag)
    (turns first last i : Nat) (bound : i < fields.length) (long : last ≤ fields.length)
    (above : first ≤ i) (below : i < last) (enough : last - first < turns) :
    (searchTag fields (fields.get ⟨i, bound⟩).tag turns first last).isSome := by
  induction turns generalizing first last with
  | zero => omega
  | succ turns ih =>
    have inside : (first + last) / 2 < fields.length := by omega
    have mid : fields[(first + last) / 2]? = some (fields.get ⟨(first + last) / 2, inside⟩) :=
      List.getElem?_eq_getElem inside
    rw [searchTag, if_pos (by omega)]
    simp only [mid]
    split_ifs with here right
    · rfl
    · have beyond : (first + last) / 2 < i := by
        by_contra before
        have order : (fields.get ⟨i, bound⟩).tag ≤
            (fields.get ⟨(first + last) / 2, inside⟩).tag := by
          rcases Nat.lt_or_eq_of_le (Nat.le_of_not_lt before) with less | same
          · exact List.pairwise_iff_get.mp tags ⟨i, bound⟩ ⟨_, inside⟩ less
          · simp [same]
        omega
      exact ih _ _ long (by omega) below (by omega)
    · have beyond : i < (first + last) / 2 := by
        by_contra before
        have order : (fields.get ⟨(first + last) / 2, inside⟩).tag ≤
            (fields.get ⟨i, bound⟩).tag := by
          rcases Nat.lt_or_eq_of_le (Nat.le_of_not_lt before) with less | same
          · exact List.pairwise_iff_get.mp tags ⟨_, inside⟩ ⟨i, bound⟩ less
          · simp [← same]
        omega
      exact ih _ _ (by omega) above beyond (by omega)

theorem searchTag_finds (fields : List Field)
    (tags : fields.Pairwise fun first second => first.tag < second.tag) (i : Nat)
    (bound : i < fields.length) :
    searchTag fields (fields.get ⟨i, bound⟩).tag (fields.length + 1) 0 fields.length =
      some (fields.get ⟨i, bound⟩) := by
  have complete := searchTag_complete fields (tags.imp Nat.le_of_lt) (fields.length + 1) 0
    fields.length i bound le_rfl (Nat.zero_le i) bound (by omega)
  obtain ⟨field, found⟩ := Option.isSome_iff_exists.mp complete
  obtain ⟨inside, same⟩ := searchTag_sound _ _ _ _ _ _ found
  obtain ⟨⟨j, place⟩, rfl⟩ := List.mem_iff_get.mp inside
  rcases Nat.lt_trichotomy j i with less | rfl | more
  · have tag := tag_lt tags j i less bound
    omega
  · exact found
  · have tag := tag_lt tags i j more place
    omega

theorem tag_distance {fields : List Field}
    (tags : fields.Pairwise fun first second => first.tag < second.tag) (i k : Nat)
    (bound : i + k < fields.length) :
    (fields.get ⟨i, by omega⟩).tag + k ≤ (fields.get ⟨i + k, bound⟩).tag := by
  induction k with
  | zero => exact le_rfl
  | succ k ih =>
    have step := tag_lt tags (i + k) (i + (k + 1)) (by omega) bound
    have before := ih (by omega)
    omega

theorem findtag_finds (st : SprotoType) (ascending : Ascending st) (field : Field)
    (inside : field ∈ st.f) : findtag st field.tag = some field := by
  obtain ⟨⟨i, bound⟩, same⟩ := List.mem_iff_get.mp inside
  have tags := ascending.tags
  have first : st.f.head? = some (st.f.get ⟨0, by omega⟩) := by
    rw [List.head?_eq_getElem?, List.getElem?_eq_getElem]
    rfl
  have last : st.f.getLast? = some (st.f.get ⟨st.f.length - 1, by omega⟩) := by
    rw [List.getLast?_eq_getElem?, List.getElem?_eq_getElem]
    rfl
  have base : st.base = if ((st.f.get ⟨st.f.length - 1, by omega⟩).tag : Int) -
      (st.f.get ⟨0, by omega⟩).tag + 1 = st.f.length then
        ((st.f.get ⟨0, by omega⟩).tag : Int) else -1 := by
    have imported := congrArg SprotoType.base ascending.imported
    rw [imported, importType, first, last]
  rw [← same, findtag]
  split_ifs at base with whole
  · -- Without gaps each tag is its place away from the base.
    have low := tag_distance tags 0 i (by omega)
    have high := tag_distance tags i (st.f.length - 1 - i) (by omega)
    have ends : i + (st.f.length - 1 - i) = st.f.length - 1 := by omega
    simp only [Nat.zero_add, ends] at low high
    have place : ((st.f.get ⟨i, bound⟩).tag : Int) - st.base = i := by
      rw [base]
      omega
    rw [if_pos (by rw [base]; omega), place, if_neg (by omega), Int.toNat_natCast]
    exact List.getElem?_eq_getElem bound
  · rw [if_neg (by rw [base]; omega)]
    exact searchTag_finds st.f tags i bound

-- The loop of `import_type`. An element is what `import_field` makes of the next field, none
-- where it refuses it.
def importFields : Int → Nat → List (Option Field) → Option (List Field × Nat)
  | _, maxn, [] => some ([], maxn)
  | _, _, none :: _ => none
  | last, maxn, some field :: rest =>
      if (field.tag : Int) < last then none
      else
        let maxn := if (field.tag : Int) > last + 1 then maxn + 1 else maxn
        (importFields field.tag maxn rest).map fun read => (field :: read.1, read.2)

-- For an empty array `base` comes from the memory before and behind it, which is `stale`.
def acceptType (stale : Int) (fields : List (Option Field)) : Option SprotoType :=
  (importFields (-1) fields.length fields).map fun read =>
    { f := read.1
      base :=
        match read.1.head?, read.1.getLast? with
        | some first, some last =>
            if (last.tag : Int) - first.tag + 1 = fields.length then first.tag else -1
        | _, _ => stale
      maxn := read.2 }

theorem importFields_fields (last : Int) (maxn : Nat) (fields : List (Option Field))
    (read : List Field × Nat) (accepted : importFields last maxn fields = some read) :
    fields = read.1.map some ∧ read.2 = maxn + gaps last read.1 ∧
      (∀ field ∈ read.1, last ≤ field.tag) ∧
      read.1.Pairwise fun first second => first.tag ≤ second.tag := by
  induction fields generalizing last maxn read with
  | nil =>
    simp only [importFields, Option.some.injEq] at accepted
    subst accepted
    simp [gaps]
  | cons entry rest ih =>
    cases entry with
    | none => simp [importFields] at accepted
    | some field =>
      rw [importFields] at accepted
      split_ifs at accepted with order gap <;>
      · simp only [Option.map_eq_some_iff] at accepted
        obtain ⟨later, found, same⟩ := accepted
        obtain ⟨fields_eq, count, above, ascending⟩ := ih _ _ _ found
        subst same
        have below : ∀ other ∈ later.1, field.tag ≤ other.tag := by
          intro other inside
          have := above other inside
          omega
        refine ⟨by rw [fields_eq]; rfl, by simp [gaps, gap, count]; try omega, ?_, ?_⟩
        · intro other inside
          rcases List.mem_cons.mp inside with here | later_inside
          · rw [here]
            omega
          · have := below other later_inside
            omega
        · exact List.pairwise_cons.mpr ⟨below, ascending⟩

theorem acceptType_type (stale : Int) (fields : List (Option Field)) (st : SprotoType)
    (accepted : acceptType stale fields = some st) :
    (st.f ≠ [] → st = importType st.f) ∧
      st.f.Pairwise fun first second => first.tag ≤ second.tag := by
  obtain ⟨read, found, same⟩ := Option.map_eq_some_iff.mp accepted
  obtain ⟨fields_eq, count, -, ascending⟩ := importFields_fields _ _ _ _ found
  subst same
  refine ⟨?_, ascending⟩
  intro some_field
  have length : fields.length = read.1.length := by rw [fields_eq, List.length_map]
  obtain ⟨first, head⟩ : ∃ first, read.1.head? = some first :=
    ⟨_, List.head?_eq_some_head some_field⟩
  obtain ⟨last, tail⟩ : ∃ last, read.1.getLast? = some last :=
    ⟨_, List.getLast?_eq_some_getLast some_field⟩
  simp only [importType, head, tail, length, count]

def Spanned (fields : List Field) : Prop :=
  ∀ first ∈ fields.head?, ∀ last ∈ fields.getLast?,
    (last.tag : Int) - first.tag + 1 = fields.length

def Searched (st : SprotoType) (tag : Int) : Prop :=
  match findtag st tag with
  | some field => field ∈ st.f ∧ field.tag = tag
  | none => ∀ field ∈ st.f, (field.tag : Int) ≠ tag

theorem findtag_bisects (st : SprotoType) (tag : Int) (negative : st.base < 0)
    (tags : st.f.Pairwise fun first second => first.tag ≤ second.tag) : Searched st tag := by
  rw [Searched, findtag, if_neg (by omega)]
  cases search : searchTag st.f tag (st.f.length + 1) 0 st.f.length with
  | some field => exact searchTag_sound _ _ _ _ _ _ search
  | none =>
    intro field inside same
    obtain ⟨⟨i, bound⟩, place⟩ := List.mem_iff_get.mp inside
    have found := searchTag_complete st.f tags (st.f.length + 1) 0 st.f.length i bound le_rfl
      (Nat.zero_le i) bound (by omega)
    rw [place, same, search] at found
    cases found

theorem findtag_indexes_iff (st : SprotoType) (direct : st.base ≥ 0) :
    (∀ tag, Searched st tag) ↔
      ∀ (i : Nat) (bound : i < st.f.length), ((st.f.get ⟨i, bound⟩).tag : Int) = st.base + i := by
  constructor
  · intro searched i bound
    have here := searched (st.base + i)
    have found : findtag st (st.base + i) = some (st.f.get ⟨i, bound⟩) := by
      rw [findtag, if_pos direct, if_neg (by omega)]
      have place : (st.base + i - st.base).toNat = i := by omega
      rw [place]
      exact List.getElem?_eq_getElem bound
    rw [Searched, found] at here
    exact here.2
  · intro placed tag
    rw [Searched, findtag, if_pos direct]
    split_ifs with outside
    · intro field inside same
      obtain ⟨⟨i, bound⟩, place⟩ := List.mem_iff_get.mp inside
      have here := placed i bound
      rw [place, same] at here
      omega
    · have bound : (tag - st.base).toNat < st.f.length := by omega
      have here := placed _ bound
      rw [List.getElem?_eq_getElem bound]
      refine ⟨List.getElem_mem bound, ?_⟩
      simp only [List.get_eq_getElem] at here
      omega

theorem spanned_placed (fields : List Field) (spanned : Spanned fields)
    (tags : fields.Pairwise fun first second => first.tag < second.tag) (first : Field)
    (head : first ∈ fields.head?) (i : Nat) (bound : i < fields.length) :
    ((fields.get ⟨i, bound⟩).tag : Int) = first.tag + i := by
  have start : first = fields.get ⟨0, by omega⟩ := by
    rw [List.head?_eq_getElem?, List.getElem?_eq_getElem (by omega)] at head
    exact (Option.some.inj head).symm
  have apart := spanned first head (fields.get ⟨fields.length - 1, by omega⟩) (by
    rw [List.getLast?_eq_getElem?, List.getElem?_eq_getElem (by omega)]
    rfl)
  have low := tag_distance tags 0 i (by omega)
  have high := tag_distance tags i (fields.length - 1 - i) (by omega)
  have ends : i + (fields.length - 1 - i) = fields.length - 1 := by omega
  simp only [Nat.zero_add, ends] at low high
  rw [start] at apart ⊢
  omega

theorem findtag_searches_iff (stale : Int) (fields : List (Option Field)) (st : SprotoType)
    (accepted : acceptType stale fields = some st) :
    (∀ tag, Searched st tag) ↔
      (Spanned st.f → st.f.Pairwise fun first second => first.tag < second.tag) := by
  obtain ⟨imported, ordered⟩ := acceptType_type stale fields st accepted
  by_cases empty : st.f = []
  · simp only [empty, List.Pairwise.nil, implies_true, iff_true]
    intro tag
    rw [Searched, findtag, empty]
    split_ifs with direct outside
    · simp
    · simp at outside
      omega
    · simp [searchTag]
  obtain ⟨first, head⟩ : ∃ first, st.f.head? = some first := ⟨_, List.head?_eq_some_head empty⟩
  obtain ⟨last, tail⟩ : ∃ last, st.f.getLast? = some last :=
    ⟨_, List.getLast?_eq_some_getLast empty⟩
  have base : st.base =
      if (last.tag : Int) - first.tag + 1 = st.f.length then (first.tag : Int) else -1 := by
    have same := congrArg SprotoType.base (imported empty)
    rw [same, importType, head, tail]
  have spanned_iff : Spanned st.f ↔ (last.tag : Int) - first.tag + 1 = st.f.length := by
    simp [Spanned, head, tail]
  by_cases spanned : (last.tag : Int) - first.tag + 1 = st.f.length
  · rw [if_pos spanned] at base
    rw [findtag_indexes_iff st (by omega), base]
    constructor
    · intro placed _
      apply List.pairwise_iff_get.mpr
      intro i j before
      have low := placed i i.isLt
      have high := placed j j.isLt
      have less : (i : Nat) < j := before
      simp only [Fin.eta] at low high
      omega
    · intro strict
      have whole := spanned_iff.mpr spanned
      exact spanned_placed st.f whole (strict whole) first head
  · rw [if_neg spanned] at base
    constructor
    · intro _ whole
      exact absurd (spanned_iff.mp whole) spanned
    · intro _ tag
      exact findtag_bisects st tag (by omega) ordered

def integerField (tag : Nat) (name : UInt8) : Field :=
  { tag := tag, type := .integer, array := false, name := [name], st := 0, key := none }

theorem findtag_searches_iff_gap :
    (∀ tag, Searched ⟨[integerField 1 97, integerField 1 98, integerField 4 99], -1, 5⟩ tag) ↔
      (Spanned [integerField 1 97, integerField 1 98, integerField 4 99] →
        [integerField 1 97, integerField 1 98, integerField 4 99].Pairwise
          fun first second => first.tag < second.tag) :=
  findtag_searches_iff 0 [some (integerField 1 97), some (integerField 1 98),
    some (integerField 4 99)] _ rfl

theorem findtag_repeated :
    ∃ st, acceptType 0 [some (integerField 0 97), some (integerField 0 98),
        some (integerField 2 99)] = some st ∧
      findtag st 1 = some (integerField 0 98) ∧ ¬ Searched st 1 := by
  refine ⟨⟨[integerField 0 97, integerField 0 98, integerField 2 99], 0, 4⟩, rfl, rfl, ?_⟩
  intro searched
  have wrong : ((integerField 0 98).tag : Int) = 1 := searched.2
  exact absurd wrong (by decide)

end Pskynet.Sproto
