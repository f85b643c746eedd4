import Mathlib.Data.List.ReduceOption
import Mathlib.Tactic

set_option autoImplicit false

namespace ChainedHash

variable {K V : Type}

structure Slot (K V : Type) where
  key : K
  hash : Nat
  next : Option Nat
  alone : Bool
  value : V

def Slot.item (slot : Slot K V) : K × Nat × V := (slot.key, slot.hash, slot.value)

abbrev Slots (K V : Type) := List (Option (Slot K V))

def mainpos (slots : Slots K V) (hash : Nat) : Nat := hash % slots.length

def items (slots : Slots K V) : List (K × Nat × V) := slots.reduceOption.map Slot.item

def putMain (slots : Slots K V) (key : K) (hash : Nat) (value : V) : Slots K V :=
  slots.set (mainpos slots hash)
    (some { key := key, hash := hash, next := none, alone := true, value := value })

def putFree (slots : Slots K V) (main : Slot K V) (free : Nat) (key : K) (hash : Nat) (value : V) :
    Slots K V :=
  (slots.set (mainpos slots hash) (some { main with next := some free, alone := false })).set free
    (some { key := key, hash := hash, next := main.next, alone := false, value := value })

-- The chain is followed for as many slots as there are, `none` if it has not ended by then.
def walk (same : Slot K V → Bool) (slots : Slots K V) : Nat → Nat → Option (Option Nat)
  | 0, _ => none
  | fuel + 1, i =>
      match slots[i]? with
      | some (some slot) =>
          if same slot then some (some i)
          else
            match slot.next with
            | none => some none
            | some next => walk same slots fuel next
      | _ => none

def find (slots : Slots K V) (hash : Nat) (same : Slot K V → Bool) : Option (Option Nat) :=
  if slots.length = 0 then some none
  else
    match slots[mainpos slots hash]? with
    | some (some slot) =>
        if hash ≠ slot.hash ∧ slot.alone then some none
        else walk same slots slots.length (mainpos slots hash)
    | _ => none

def Filled (slots : Slots K V) (i : Nat) (slot : Slot K V) : Prop := slots[i]? = some (some slot)

inductive Chain (slots : Slots K V) : Nat → List Nat → Prop where
  | last {i : Nat} {slot : Slot K V} (filled : Filled slots i slot) (ends : slot.next = none) :
      Chain slots i [i]
  | more {i j : Nat} {slot : Slot K V} {rest : List Nat} (filled : Filled slots i slot)
      (goes : slot.next = some j) (chain : Chain slots j rest) : Chain slots i (i :: rest)

structure Chained (slots : Slots K V) : Prop where
  mains : ∀ i slot, Filled slots i slot →
    ∃ main, Filled slots (mainpos slots slot.hash) main ∧
      mainpos slots main.hash = mainpos slots slot.hash
  chains : ∀ i slot, Filled slots i slot → mainpos slots slot.hash = i →
    ∃ chain, Chain slots i chain ∧ chain.Nodup ∧
      ∀ j, j ∈ chain ↔ ∃ other, Filled slots j other ∧ mainpos slots other.hash = i
  alone : ∀ i slot, Filled slots i slot → slot.alone = true →
    mainpos slots slot.hash = i ∧ slot.next = none

def Lonely (slots : Slots K V) : Prop :=
  ∀ i slot, Filled slots i slot → mainpos slots slot.hash = i ∧ slot.next = none

theorem Filled.unique {slots : Slots K V} {i : Nat} {slot other : Slot K V}
    (filled : Filled slots i slot) (again : Filled slots i other) : slot = other :=
  Option.some.inj (Option.some.inj (filled.symm.trans again))

theorem Filled.lt {slots : Slots K V} {i : Nat} {slot : Slot K V} (filled : Filled slots i slot) :
    i < slots.length :=
  (List.getElem?_eq_some_iff.mp filled).1

theorem mainpos_lt {slots : Slots K V} (vacant : 0 < slots.length) (hash : Nat) :
    mainpos slots hash < slots.length :=
  Nat.mod_lt _ vacant

theorem Lonely.chained {slots : Slots K V} (lonely : Lonely slots) : Chained slots where
  mains := by
    intro i slot filled
    have main := (lonely i slot filled).1
    exact ⟨slot, by rwa [main], rfl⟩
  chains := by
    intro i slot filled main
    refine ⟨[i], .last filled (lonely i slot filled).2, List.nodup_singleton i, ?_⟩
    intro j
    rw [List.mem_singleton]
    constructor
    · rintro rfl
      exact ⟨slot, filled, main⟩
    · rintro ⟨other, there, belongs⟩
      exact (lonely j other there).1.symm.trans belongs
  alone := fun i slot filled _ => lonely i slot filled

theorem lonely_replicate (n : Nat) : Lonely (List.replicate n none : Slots K V) := by
  intro i slot filled
  have vacant := List.getElem?_eq_some_iff.mp filled
  obtain ⟨inside, value⟩ := vacant
  rw [List.getElem_replicate] at value
  cases value

theorem filled_set {slots : Slots K V} {i j : Nat} {slot new_ : Slot K V} :
    Filled (slots.set i (some new_)) j slot ↔
      j = i ∧ i < slots.length ∧ slot = new_ ∨ j ≠ i ∧ Filled slots j slot := by
  unfold Filled
  rw [List.getElem?_set]
  by_cases same : i = j
  · subst same
    by_cases inside : i < slots.length
    · simp [inside, eq_comm]
    · simp [inside]
  · simp [same, Ne.symm same]

theorem mainpos_putMain (slots : Slots K V) (key : K) (hash : Nat) (value : V) :
    mainpos (putMain slots key hash value) = mainpos slots := by
  funext h
  simp [mainpos, putMain]

theorem Lonely.putMain {slots : Slots K V} (lonely : Lonely slots) (key : K) (hash : Nat)
    (value : V) : Lonely (putMain slots key hash value) := by
  intro i slot filled
  rw [mainpos_putMain]
  rcases filled_set.mp filled with ⟨here, _, is⟩ | ⟨_, old⟩
  · subst is
    exact ⟨here.symm, rfl⟩
  · exact lonely i slot old

theorem putMain_filled_main {slots : Slots K V} {key : K} {hash : Nat} {value : V}
    (inside : mainpos slots hash < slots.length) :
    ∃ slot, Filled (putMain slots key hash value) (mainpos slots hash) slot :=
  ⟨_, filled_set.mpr (.inl ⟨rfl, inside, rfl⟩)⟩

theorem putMain_filled {slots : Slots K V} {key : K} {hash : Nat} {value : V} {i : Nat}
    {slot : Slot K V} (vacant : slots[mainpos slots hash]? = some none)
    (filled : Filled slots i slot) : Filled (putMain slots key hash value) i slot := by
  refine filled_set.mpr (.inr ⟨?_, filled⟩)
  rintro rfl
  cases vacant.symm.trans filled

theorem reduceOption_set {A : Type} (l : List (Option A)) (i : Nat) (a : A)
    (vacant : l[i]? = some none) : (l.set i (some a)).reduceOption.Perm (a :: l.reduceOption) := by
  induction l generalizing i with
  | nil => cases vacant
  | cons head rest ih =>
    cases i with
    | zero =>
      have is : head = none := Option.some.inj vacant
      subst is
      exact .refl _
    | succ i =>
      have later := ih i vacant
      cases head with
      | none => exact later
      | some b =>
        simp only [List.set_cons_succ, List.reduceOption_cons_of_some]
        exact (later.cons b).trans (.swap a b _)

theorem items_putMain {slots : Slots K V} {key : K} {hash : Nat} {value : V}
    (vacant : slots[mainpos slots hash]? = some none) :
    (items (putMain slots key hash value)).Perm ((key, hash, value) :: items slots) :=
  (reduceOption_set slots _ _ vacant).map Slot.item

theorem items_relink {slots : Slots K V} {i : Nat} {slot : Slot K V} (new_ : Slot K V)
    (filled : Filled slots i slot) (same : new_.item = slot.item) :
    items (slots.set i (some new_)) = items slots := by
  unfold items
  induction slots generalizing i with
  | nil => rfl
  | cons head rest ih =>
    cases i with
    | zero =>
      have is : head = some slot := Option.some.inj filled
      subst is
      simp [same]
    | succ i =>
      have later := ih (i := i) filled
      cases head with
      | none => exact later
      | some b =>
        simp only [List.set_cons_succ, List.reduceOption_cons_of_some, List.map_cons]
        rw [later]

theorem items_putFree {slots : Slots K V} {main : Slot K V} {free : Nat} {key : K} {hash : Nat}
    {value : V} (there : Filled slots (mainpos slots hash) main) (vacant : slots[free]? = some none) :
    (items (putFree slots main free key hash value)).Perm ((key, hash, value) :: items slots) := by
  unfold putFree
  have apart : mainpos slots hash ≠ free := by
    rintro rfl
    cases vacant.symm.trans there
  have linked : (slots.set (mainpos slots hash)
      (some { main with next := some free, alone := false }))[free]? = some none := by
    rw [List.getElem?_set_ne apart]
    exact vacant
  have all := (reduceOption_set _ free
    { key := key, hash := hash, next := main.next, alone := false, value := value } linked).map
    Slot.item
  have kept := items_relink { main with next := some free, alone := false } there rfl
  unfold items at kept ⊢
  rwa [List.map_cons, kept] at all

theorem free_of_lt {slots : Slots K V} (fewer : (items slots).length < slots.length) :
    ∃ free, slots.findIdx? Option.isNone = some free ∧ slots[free]? = some none := by
  cases found : slots.findIdx? Option.isNone with
  | none =>
    exfalso
    rw [List.findIdx?_eq_none_iff] at found
    have all : slots.reduceOption.length = slots.length := by
      rw [List.reduceOption_length_eq_iff]
      intro slot inside
      have full := found slot inside
      cases slot with
      | none => cases full
      | some slot => rfl
    simp only [items, List.length_map] at fewer
    omega
  | some free =>
    obtain ⟨inside, empty, _⟩ := List.findIdx?_eq_some_iff_getElem.mp found
    refine ⟨free, rfl, ?_⟩
    rw [List.getElem?_eq_getElem inside]
    exact congrArg some (Option.isNone_iff_eq_none.mp empty)

theorem filled_of_full {slots : Slots K V} (full : (items slots).length = slots.length) {i : Nat}
    (inside : i < slots.length) : ∃ slot, Filled slots i slot := by
  have all : slots.reduceOption.length = slots.length := by
    simpa only [items, List.length_map] using full
  rw [List.reduceOption_length_eq_iff] at all
  have there := all slots[i] (List.getElem_mem inside)
  obtain ⟨slot, is⟩ := Option.isSome_iff_exists.mp there
  exact ⟨slot, by rw [Filled, List.getElem?_eq_getElem inside, is]⟩

theorem mem_items {slots : Slots K V} {item : K × Nat × V} :
    item ∈ items slots ↔ ∃ i slot, Filled slots i slot ∧ slot.item = item := by
  unfold items
  rw [List.mem_map]
  constructor
  · rintro ⟨slot, inside, is⟩
    rw [List.reduceOption_mem_iff, List.mem_iff_getElem?] at inside
    obtain ⟨i, filled⟩ := inside
    exact ⟨i, slot, filled, is⟩
  · rintro ⟨i, slot, filled, is⟩
    refine ⟨slot, ?_, is⟩
    rw [List.reduceOption_mem_iff]
    exact List.mem_of_getElem? filled

theorem filled_inj {A : Type} {f : K × Nat × V → A} {slots : Slots K V}
    (nodup : ((items slots).map f).Nodup) {i j : Nat} {slot other : Slot K V}
    (one : Filled slots i slot) (two : Filled slots j other) (same : f slot.item = f other.item) :
    i = j := by
  have outside : ∀ (rest : Slots K V) k (slot : Slot K V), Filled rest k slot →
      f slot.item ∈ (items rest).map f := by
    intro rest k slot filled
    exact List.mem_map_of_mem (mem_items.mpr ⟨k, slot, filled, rfl⟩)
  induction slots generalizing i j with
  | nil => cases one
  | cons head rest ih =>
    cases head with
    | none =>
      cases i with
      | zero => cases one
      | succ i =>
        cases j with
        | zero => cases two
        | succ j => exact congrArg Nat.succ (ih nodup one two)
    | some first =>
      have split : (f first.item :: (items rest).map f).Nodup := nodup
      rw [List.nodup_cons] at split
      cases i with
      | zero =>
        cases one
        cases j with
        | zero => rfl
        | succ j => exact absurd (same ▸ outside rest j other two) split.1
      | succ i =>
        cases j with
        | zero =>
          cases two
          exact absurd (same ▸ outside rest i slot one) split.1
        | succ j => exact congrArg Nat.succ (ih split.2 one two)

theorem items_getElem_of_full {slots : Slots K V} (full : (items slots).length = slots.length)
    {i : Nat} {slot : Slot K V} (filled : Filled slots i slot) :
    (items slots)[i]? = some slot.item := by
  induction slots generalizing i with
  | nil => cases filled
  | cons head rest ih =>
    cases head with
    | none =>
      have fewer : (items rest).length ≤ rest.length := by
        simpa [items] using List.reduceOption_length_le rest
      have same : (items rest).length = rest.length + 1 := full
      omega
    | some first =>
      have later : (items rest).length = rest.length := Nat.succ.inj full
      cases i with
      | zero =>
        cases filled
        rfl
      | succ i => exact ih later filled

theorem Chain.congr {slots other : Slots K V} {i : Nat} {chain : List Nat} (is : Chain slots i chain)
    (same : ∀ j ∈ chain, other[j]? = slots[j]?) : Chain other i chain := by
  induction is with
  | last filled ends =>
    exact .last ((same _ List.mem_cons_self).trans filled) ends
  | more filled goes _ ih =>
    refine .more ((same _ List.mem_cons_self).trans filled) goes (ih ?_)
    intro j inside
    exact same j (List.mem_cons_of_mem _ inside)

theorem Chain.filled {slots : Slots K V} {i : Nat} {chain : List Nat} (is : Chain slots i chain) :
    ∀ j ∈ chain, ∃ slot, Filled slots j slot := by
  induction is with
  | last filled _ =>
    intro j inside
    rw [List.mem_singleton.mp inside]
    exact ⟨_, filled⟩
  | more filled _ _ ih =>
    intro j inside
    rcases List.mem_cons.mp inside with here | later
    · exact here ▸ ⟨_, filled⟩
    · exact ih j later

theorem Chain.suffix {slots : Slots K V} {i j : Nat} {chain : List Nat} (is : Chain slots i chain)
    (inside : j ∈ chain) : ∃ rest, Chain slots j rest ∧ rest.Sublist chain := by
  induction is with
  | last filled ends =>
    rw [List.mem_singleton.mp inside]
    exact ⟨_, .last filled ends, .refl _⟩
  | more filled goes chain ih =>
    rcases List.mem_cons.mp inside with here | later
    · subst here
      exact ⟨_, .more filled goes chain, .refl _⟩
    · obtain ⟨rest, from_, part⟩ := ih later
      exact ⟨rest, from_, part.cons _⟩

theorem Chain.tail {slots : Slots K V} {i : Nat} {chain : List Nat} {slot : Slot K V}
    (is : Chain slots i chain) (filled : Filled slots i slot) :
    ∃ rest, chain = i :: rest ∧
      (slot.next = none ∧ rest = [] ∨ ∃ j, slot.next = some j ∧ Chain slots j rest) := by
  cases is with
  | last there ends =>
    cases filled.unique there
    exact ⟨[], rfl, .inl ⟨ends, rfl⟩⟩
  | more there goes chain =>
    cases filled.unique there
    exact ⟨_, rfl, .inr ⟨_, goes, chain⟩⟩

theorem Chain.length_le {slots : Slots K V} {i : Nat} {chain : List Nat} (is : Chain slots i chain)
    (nodup : chain.Nodup) : chain.length ≤ slots.length := by
  have part : chain ⊆ List.range slots.length := by
    intro j inside
    obtain ⟨slot, filled⟩ := is.filled j inside
    exact List.mem_range.mpr filled.lt
  have bound := (List.subperm_of_subset nodup part).length_le
  rwa [List.length_range] at bound

section PutFree

variable {slots : Slots K V} {main : Slot K V} {free : Nat} {key : K} {hash : Nat} {value : V}

theorem mainpos_putFree : mainpos (putFree slots main free key hash value) = mainpos slots := by
  funext h
  simp [mainpos, putFree]

theorem filled_putFree (there : Filled slots (mainpos slots hash) main)
    (vacant : slots[free]? = some none) {i : Nat} {slot : Slot K V} :
    Filled (putFree slots main free key hash value) i slot ↔
      (i = free ∧ slot =
        { key := key, hash := hash, next := main.next, alone := false, value := value }) ∨
      (i = mainpos slots hash ∧ slot = { main with next := some free, alone := false }) ∨
      (i ≠ free ∧ i ≠ mainpos slots hash ∧ Filled slots i slot) := by
  have apart : mainpos slots hash ≠ free := by
    rintro same
    rw [Filled, same, vacant] at there
    cases there
  have inside : free < slots.length := (List.getElem?_eq_some_iff.mp vacant).1
  unfold putFree
  rw [filled_set, filled_set, List.length_set]
  constructor
  · rintro (⟨here, _, is⟩ | ⟨other, ⟨here, _, is⟩ | ⟨third, old⟩⟩)
    · exact .inl ⟨here, is⟩
    · exact .inr (.inl ⟨here, is⟩)
    · exact .inr (.inr ⟨other, third, old⟩)
  · rintro (⟨here, is⟩ | ⟨here, is⟩ | ⟨other, third, old⟩)
    · exact .inl ⟨here, inside, is⟩
    · exact .inr ⟨here ▸ apart, .inl ⟨here, there.lt, is⟩⟩
    · exact .inr ⟨other, .inr ⟨third, old⟩⟩

theorem filled_putFree_mainpos (there : Filled slots (mainpos slots hash) main)
    (vacant : slots[free]? = some none) {i m : Nat} :
    (∃ slot, Filled (putFree slots main free key hash value) i slot ∧ mainpos slots slot.hash = m) ↔
      (i = free ∧ mainpos slots hash = m) ∨
        ∃ slot, Filled slots i slot ∧ mainpos slots slot.hash = m := by
  constructor
  · rintro ⟨slot, filled, belongs⟩
    rcases (filled_putFree there vacant).mp filled with ⟨here, is⟩ | ⟨here, is⟩ | ⟨_, _, old⟩
    · subst is
      exact .inl ⟨here, belongs⟩
    · subst is
      exact .inr ⟨main, here ▸ there, belongs⟩
    · exact .inr ⟨slot, old, belongs⟩
  · rintro (⟨here, belongs⟩ | ⟨slot, filled, belongs⟩)
    · exact ⟨_, (filled_putFree there vacant).mpr (.inl ⟨here, rfl⟩), belongs⟩
    · have other : i ≠ free := by
        rintro rfl
        cases vacant.symm.trans filled
      by_cases same : i = mainpos slots hash
      · have is : slot = main := (same ▸ filled).unique there
        subst is
        exact ⟨_, (filled_putFree there vacant).mpr (.inr (.inl ⟨same, rfl⟩)), belongs⟩
      · exact ⟨slot, (filled_putFree there vacant).mpr (.inr (.inr ⟨other, same, filled⟩)), belongs⟩

theorem Chained.putFree (chained : Chained slots) (there : Filled slots (mainpos slots hash) main)
    (belongs : mainpos slots main.hash = mainpos slots hash) (vacant : slots[free]? = some none) :
    Chained (putFree slots main free key hash value) := by
  have size : mainpos (ChainedHash.putFree slots main free key hash value) = mainpos slots :=
    mainpos_putFree
  have unfilled : ∀ slot, ¬Filled slots free slot := by
    intro slot filled
    cases vacant.symm.trans filled
  have apart : mainpos slots hash ≠ free := by
    rintro same
    exact unfilled main (same ▸ there)
  constructor
  · intro i slot filled
    rw [size]
    suffices found : ∃ m, Filled slots (mainpos slots slot.hash) m ∧
        mainpos slots m.hash = mainpos slots slot.hash by
      obtain ⟨m, filled, same⟩ := found
      exact (filled_putFree_mainpos there vacant).mpr (.inr ⟨m, filled, same⟩)
    rcases (filled_putFree there vacant).mp filled with ⟨_, is⟩ | ⟨_, is⟩ | ⟨_, _, old⟩
    · subst is
      exact ⟨main, there, belongs⟩
    · subst is
      exact chained.mains _ main there
    · exact chained.mains i slot old
  · intro i slot filled
    rw [size]
    intro here
    have old : ∃ before, Filled slots i before ∧ mainpos slots before.hash = i := by
      rcases (filled_putFree_mainpos there vacant).mp ⟨slot, filled, here⟩ with ⟨same, new_⟩ | old
      · exact absurd (new_.trans same) apart
      · exact old
    obtain ⟨before, was, main_⟩ := old
    obtain ⟨chain, is, nodup, members⟩ := chained.chains i before was main_
    have outside : free ∉ chain := by
      intro inside
      obtain ⟨slot, filled⟩ := is.filled free inside
      exact unfilled slot filled
    by_cases same : i = mainpos slots hash
    · -- The new slot is second in this chain.
      have first : before = main := (same ▸ was).unique there
      subst first
      obtain ⟨rest, split, next⟩ := is.tail was
      subst split
      have tail : Chain (ChainedHash.putFree slots before free key hash value) free
          (free :: rest) := by
        have new_ : Filled (ChainedHash.putFree slots before free key hash value) free _ :=
          (filled_putFree there vacant).mpr (.inl ⟨rfl, rfl⟩)
        rcases next with ⟨ends, empty⟩ | ⟨j, goes, later⟩
        · subst empty
          exact .last new_ ends
        · refine .more new_ goes (later.congr ?_)
          intro k inside
          have notFree : k ≠ free := by
            rintro rfl
            exact outside (List.mem_cons_of_mem _ inside)
          have notMain : k ≠ mainpos slots hash := by
            rintro rfl
            rw [List.nodup_cons] at nodup
            exact nodup.1 (same ▸ inside)
          simp [ChainedHash.putFree, List.getElem?_set_ne (Ne.symm notFree),
            List.getElem?_set_ne (Ne.symm notMain)]
      have head : Filled (ChainedHash.putFree slots before free key hash value) i _ :=
        (filled_putFree there vacant).mpr (.inr (.inl ⟨same, rfl⟩))
      refine ⟨i :: free :: rest, .more head rfl tail, ?_, ?_⟩
      · rw [List.nodup_cons] at nodup ⊢
        rw [List.mem_cons, not_or] at outside
        refine ⟨?_, List.nodup_cons.mpr ⟨outside.2, nodup.2⟩⟩
        rw [List.mem_cons, not_or]
        exact ⟨Ne.symm outside.1, nodup.1⟩
      · intro j
        rw [filled_putFree_mainpos there vacant, ← members j, ← same]
        simp only [List.mem_cons]
        tauto
    · refine ⟨chain, is.congr ?_, nodup, ?_⟩
      · intro j inside
        have notFree : j ≠ free := by
          rintro rfl
          exact outside inside
        have notMain : j ≠ mainpos slots hash := by
          rintro rfl
          obtain ⟨other, filled, at_⟩ := (members _).mp inside
          have is : other = main := filled.unique there
          subst is
          exact same (at_.symm.trans belongs)
        simp [ChainedHash.putFree, List.getElem?_set_ne (Ne.symm notFree),
          List.getElem?_set_ne (Ne.symm notMain)]
      · intro j
        rw [filled_putFree_mainpos there vacant, ← members j]
        constructor
        · exact .inr
        · rintro (⟨_, at_⟩ | inside)
          · exact absurd at_.symm same
          · exact inside
  · intro i slot filled alone
    rw [size]
    rcases (filled_putFree there vacant).mp filled with ⟨_, is⟩ | ⟨_, is⟩ | ⟨_, _, old⟩
    · subst is
      cases alone
    · subst is
      cases alone
    · exact chained.alone i slot old alone

end PutFree

theorem walk_chain {slots : Slots K V} {i : Nat} {chain : List Nat} (is : Chain slots i chain)
    (same : Slot K V → Bool) {fuel : Nat} (enough : chain.length ≤ fuel) :
    walk same slots fuel i = some (chain.find? fun j => ((slots[j]?).join.map same).getD false) := by
  induction is generalizing fuel with
  | @last i slot filled ends =>
    obtain ⟨fuel, rfl⟩ : ∃ n, fuel = n + 1 := ⟨fuel - 1, by simp at enough; omega⟩
    have at_ : slots[i]? = some (some slot) := filled
    simp only [walk, at_, List.find?_cons, Option.join_some, Option.map_some, Option.getD_some]
    by_cases here : same slot = true
    · simp [here]
    · simp [here, ends]
  | @more i j slot rest filled goes chain ih =>
    obtain ⟨fuel, rfl⟩ : ∃ n, fuel = n + 1 := ⟨fuel - 1, by simp at enough; omega⟩
    have at_ : slots[i]? = some (some slot) := filled
    simp only [walk, at_, List.find?_cons, Option.join_some, Option.map_some, Option.getD_some]
    by_cases here : same slot = true
    · simp [here]
    · simp only [here, goes]
      exact ih (by simpa using enough)

theorem find_present {slots : Slots K V} (chained : Chained slots) {i : Nat} {slot : Slot K V}
    (filled : Filled slots i slot) (same : Slot K V → Bool) (is : same slot = true)
    (only : ∀ j other, Filled slots j other → same other = true → j = i) :
    find slots slot.hash same = some (some i) := by
  have size : slots.length ≠ 0 := by
    have inside := filled.lt
    omega
  obtain ⟨main, there, belongs⟩ := chained.mains i slot filled
  have at_ : slots[mainpos slots slot.hash]? = some (some main) := there
  obtain ⟨chain, linked, nodup, members⟩ := chained.chains _ main there belongs
  have inside : i ∈ chain := (members i).mpr ⟨slot, filled, rfl⟩
  simp only [find, size, if_false, at_]
  rw [if_neg, walk_chain linked same (linked.length_le nodup), Option.some.injEq]
  · have here : slots[i]? = some (some slot) := filled
    cases found : chain.find? fun j => ((slots[j]?).join.map same).getD false with
    | none =>
      have never := List.find?_eq_none.mp found i inside
      simp [here, is] at never
    | some j =>
      obtain ⟨other, at_⟩ := linked.filled j (List.mem_of_find?_eq_some found)
      have matched := List.find?_some found
      have value : slots[j]? = some (some other) := at_
      simp only [value, Option.join_some, Option.map_some, Option.getD_some] at matched
      exact congrArg some (only j other at_ matched)
  · rintro ⟨different, alone⟩
    have single := (chained.alone _ main there alone).2
    obtain ⟨rest, split, next⟩ := linked.tail there
    rcases next with ⟨_, empty⟩ | ⟨j, goes, _⟩
    · subst split empty
      have at_main := List.mem_singleton.mp inside
      rw [at_main] at filled
      exact different (congrArg Slot.hash (filled.unique there))
    · cases single.symm.trans goes

theorem find_absent {slots : Slots K V} (chained : Chained slots)
    (full : (items slots).length = slots.length) (hash : Nat) (same : Slot K V → Bool)
    (never : ∀ i slot, Filled slots i slot → same slot = false) :
    find slots hash same = some none := by
  unfold find
  split_ifs with empty
  · rfl
  · obtain ⟨slot, filled⟩ := filled_of_full full (mainpos_lt (by omega) hash)
    have at_ : slots[mainpos slots hash]? = some (some slot) := filled
    simp only [at_]
    split_ifs with other
    · rfl
    · obtain ⟨main, there, belongs⟩ := chained.mains _ slot filled
      obtain ⟨chain, linked, nodup, members⟩ := chained.chains _ main there belongs
      obtain ⟨rest, from_, part⟩ := linked.suffix ((members _).mpr ⟨slot, filled, rfl⟩)
      rw [walk_chain from_ same (from_.length_le (nodup.sublist part)), Option.some.injEq,
        List.find?_eq_none]
      intro j inside
      obtain ⟨other, at_⟩ := from_.filled j inside
      have value : slots[j]? = some (some other) := at_
      simp [value, never j other at_]

end ChainedHash
