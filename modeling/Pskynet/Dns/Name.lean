import Pskynet.Dns.Packet

set_option autoImplicit false

namespace Pskynet.Dns

open LittleEndian Relation

inductive Part where
  | root
  | label (text : List UInt8)
  | pointer (target : Nat)
  deriving DecidableEq, Repr

def partAt (chunk : Chunk) (place : Nat) : Option Part :=
  match chunk.drop place with
  | [] => none
  | tag :: rest =>
    if tag.toNat &&& 0xc0 = 0xc0 then
      rest.head?.map fun low => .pointer ((256 * tag.toNat + low.toNat) &&& 0x3fff)
    else if tag = 0 then some .root
    else if rest.length < tag.toNat then none
    else some (.label (rest.take tag.toNat))

inductive Goes (chunk : Chunk) : Nat → Nat → Prop where
  | label (place : Nat) (text : List UInt8) (here : partAt chunk place = some (.label text)) :
      Goes chunk place (place + 1 + text.length)
  | pointer (place target : Nat) (here : partAt chunk place = some (.pointer target)) :
      Goes chunk place target

inductive Name (chunk : Chunk) : Nat → List (List UInt8) → Nat → Prop where
  | root (place : Nat) (here : partAt chunk place = some .root) : Name chunk place [] (place + 1)
  | label (place : Nat) (text : List UInt8) (labels : List (List UInt8)) (behind : Nat)
      (here : partAt chunk place = some (.label text))
      (rest : Name chunk (place + 1 + text.length) labels behind) :
      Name chunk place (text :: labels) behind
  | pointer (place target : Nat) (labels : List (List UInt8)) (behind : Nat)
      (here : partAt chunk place = some (.pointer target)) (rest : Name chunk target labels behind) :
      Name chunk place labels (place + 2)

def Circular (chunk : Chunk) (place : Nat) : Prop :=
  ∃ back target, ReflTransGen (Goes chunk) place back ∧
    partAt chunk back = some (.pointer target) ∧ ReflTransGen (Goes chunk) target back

section

variable {chunk : Chunk}

theorem start_succ (chunk : Chunk) (place : Nat) :
    start chunk (place + 1) =
      if place ≤ chunk.length then .ok place else .error "initial position out of string" := by
  have positive : (0 : Int) ≤ place + 1 := by omega
  simp only [start, positive, if_true]
  by_cases inside : place ≤ chunk.length
  · rw [if_pos ⟨by omega, by omega⟩, if_pos inside, Int.add_sub_cancel, Int.toNat_natCast]
  · rw [if_neg (by omega), if_neg inside]

theorem start_ok {left : Int} {place : Nat} (is : start chunk left = .ok place) :
    place ≤ chunk.length := by
  simp only [start] at is
  generalize (if 0 ≤ left then left else if (chunk.length : Int) < -left then 0
    else chunk.length + left + 1) = pos at is
  split_ifs at is with inside
  obtain rfl := Except.ok.inj is
  omega

theorem unpackInt_drop {place : Nat} (size : Nat) (bytes : List UInt8) {rest : List UInt8}
    (here : chunk.drop place = bytes ++ rest) (filled : bytes ≠ []) (length : bytes.length = size) :
    unpackInt chunk size place = .ok (value bytes.reverse, place + size) := by
  have total := congrArg List.length here
  have positive := List.length_pos_iff.mpr filled
  rw [List.length_drop, List.length_append] at total
  rw [unpackInt, if_neg (by omega), here, List.take_left' length]

theorem unpackInt_short {size place : Nat} (short : chunk.length < place + size) :
    unpackInt chunk size place = .error "data string too short" := if_pos short

theorem unpackString_drop {place : Nat} {len : UInt8} {rest : List UInt8}
    (here : chunk.drop place = len :: rest) :
    unpackString chunk 1 place =
      if rest.length < len.toNat then .error "data string too short"
      else .ok (rest.take len.toNat, place + 1 + len.toNat) := by
  have total := congrArg List.length here
  rw [List.length_drop, List.length_cons] at total
  have behind : chunk.drop (place + 1) = rest := by
    rw [← List.drop_drop, here, List.drop_one, List.tail_cons]
  have number : unpackInt chunk 1 place = .ok (len.toNat, place + 1) :=
    unpackInt_drop 1 [len] here (List.cons_ne_nil _ _) rfl
  have same : chunk.length < place + 1 + len.toNat ↔ rest.length < len.toNat := by omega
  rw [unpackString, number]
  change (if chunk.length < place + 1 + len.toNat then _ else _) = _
  simp only [same, behind]

theorem unpack_at {α : Type} {read : Nat → Except String (α × Nat)} {left : Int} {place : Nat}
    (there : start chunk left = .ok place) :
    unpack chunk read left = (read place).map fun (a, pos) => (a, (pos : Int) + 1) := by
  rw [unpack, there]
  rfl

theorem unpack_succ {α : Type} {read : Nat → Except String (α × Nat)} {place : Nat}
    (inside : place ≤ chunk.length) :
    unpack chunk read (place + 1) = (read place).map fun (a, pos) => (a, (pos : Int) + 1) :=
  unpack_at (by rw [start_succ, if_pos inside])

theorem nameBody_tag {s : NameState} {place : Nat} (there : start chunk s.left = .ok place)
    {tag : UInt8} {rest : List UInt8} (here : chunk.drop place = tag :: rest) :
    nameBody chunk s =
      if tag.toNat &&& 0xc0 = 0xc0 then
        (unpackInt chunk 2 place).map fun (offset, pos) => .inl { s with
          jumpPointer := some (s.jumpPointer.getD (pos + 1))
          left := (offset &&& 0x3fff : Nat) + 1 }
      else if tag = 0 then .ok (.inr (concat s.t, s.jumpPointer.getD ((place + 1 : Nat) + 1)))
      else
        (unpackString chunk 1 place).map fun (label, pos) => .inl { s with
          t := s.t ++ [label]
          left := pos + 1 } := by
  have number : unpackInt chunk 1 place = .ok (tag.toNat, place + 1) :=
    unpackInt_drop 1 [tag] here (List.cons_ne_nil _ _) rfl
  have back : ((place + 1 : Nat) : Int) + 1 - 1 = place + 1 := by omega
  have zero : tag.toNat = 0 ↔ tag = 0 := by
    rw [← UInt8.toNat_inj]
    rfl
  rw [nameBody, unpack_at there, number]
  change (if tag.toNat &&& 0xc0 = 0xc0 then _ else if tag.toNat = 0 then _ else _) = _
  simp only [back, unpack_succ (start_ok there), zero]
  congr 1
  · cases unpackInt chunk 2 place <;> rfl
  · congr 1
    cases unpackString chunk 1 place <;> rfl

theorem nameRound_part {s : NameState} {place : Nat} (there : start chunk s.left = .ok place) :
    match partAt chunk place with
    | none => ∃ text, nameRound chunk s = .inr (.error text)
    | some .root =>
      nameRound chunk s = .inr (.ok (concat s.t, s.jumpPointer.getD ((place + 1 : Nat) + 1)))
    | some (.label text) => nameRound chunk s = .inl { s with
        t := s.t ++ [text]
        left := (place + 1 + text.length : Nat) + 1 }
    | some (.pointer target) => nameRound chunk s = .inl { s with
        jumpPointer := some (s.jumpPointer.getD ((place + 2 : Nat) + 1))
        left := (target : Nat) + 1 } := by
  have inside := start_ok there
  have total : (chunk.drop place).length = chunk.length - place := List.length_drop
  unfold partAt
  cases here : chunk.drop place with
  | nil =>
    rw [here, List.length_nil] at total
    refine ⟨"data string too short", ?_⟩
    rw [nameRound, nameBody, unpack_at there, unpackInt_short (by omega)]
    rfl
  | cons tag rest =>
    rw [here, List.length_cons] at total
    have body := nameBody_tag there here
    by_cases pointer : tag.toNat &&& 0xc0 = 0xc0
    · rw [if_pos pointer] at body
      simp only [pointer, if_true]
      cases rest with
      | nil =>
        rw [List.length_nil] at total
        refine ⟨"data string too short", ?_⟩
        rw [nameRound, body, unpackInt_short (by omega)]
        rfl
      | cons low rest =>
        have offset : unpackInt chunk 2 place = .ok (256 * tag.toNat + low.toNat, place + 2) := by
          rw [unpackInt_drop 2 [tag, low] here (List.cons_ne_nil _ _) rfl]
          simp only [List.reverse_cons, List.reverse_nil, List.nil_append, List.cons_append, value]
          congr 2
          omega
        rw [List.head?_cons, Option.map_some, nameRound, body, offset]
        rfl
    · rw [if_neg pointer] at body
      simp only [pointer, if_false]
      by_cases root : tag = 0
      · rw [if_pos root] at body ⊢
        rw [nameRound, body]
      · rw [if_neg root, unpackString_drop here] at body
        rw [if_neg root]
        by_cases short : rest.length < tag.toNat
        · rw [if_pos short] at body ⊢
          exact ⟨"data string too short", by rw [nameRound, body]; rfl⟩
        · rw [if_neg short] at body ⊢
          have length : (rest.take tag.toNat).length = tag.toNat :=
            List.length_take_of_le (Nat.not_lt.mp short)
          simp only [length]
          rw [nameRound, body]
          rfl

theorem nameRound_outside {s : NameState} {text : String} (outside : start chunk s.left = .error text) :
    nameRound chunk s = .inr (.error text) := by
  rw [nameRound, nameBody, unpack, outside]
  rfl

theorem partAt_inside {place : Nat} {part : Part} (here : partAt chunk place = some part) :
    place < chunk.length := by
  by_contra outside
  rw [partAt, List.drop_eq_nil_of_le (Nat.not_lt.mp outside)] at here
  cases here

theorem partAt_label {place : Nat} {text : List UInt8}
    (here : partAt chunk place = some (.label text)) :
    place + 1 + text.length ≤ chunk.length ∧ text <+: chunk.drop (place + 1) := by
  have inside := partAt_inside here
  rw [← List.drop_drop]
  unfold partAt at here
  cases tail : chunk.drop place with
  | nil => rw [tail] at here; cases here
  | cons tag rest =>
    have total := congrArg List.length tail
    rw [List.length_drop, List.length_cons] at total
    rw [tail] at here
    simp only at here
    split_ifs at here with pointer root short
    · cases rest <;> cases here
    · cases here
    · obtain rfl := Part.label.inj (Option.some.inj here)
      rw [List.length_take_of_le (Nat.not_lt.mp short), List.drop_one, List.tail_cons]
      exact ⟨by omega, List.take_prefix _ _⟩

theorem partAt_pointer {place target : Nat} (here : partAt chunk place = some (.pointer target)) :
    target ≤ 0x3fff := by
  unfold partAt at here
  cases tail : chunk.drop place with
  | nil => rw [tail] at here; cases here
  | cons tag rest =>
    rw [tail] at here
    simp only at here
    split_ifs at here with pointer root short
    · obtain ⟨low, -, same⟩ := Option.map_eq_some_iff.mp here
      obtain rfl := Part.pointer.inj same
      exact Nat.and_le_right
    · cases here
    · cases here

theorem Goes.bounded {place next : Nat} (goes : Goes chunk place next) :
    next ≤ max chunk.length 0x3fff := by
  cases goes with
  | label text here => exact le_max_of_le_left (partAt_label here).1
  | pointer _ here => exact le_max_of_le_right (partAt_pointer here)

theorem reached_finite (place : Nat) : {next | ReflTransGen (Goes chunk) place next}.Finite := by
  refine (Set.finite_Iic (max place (max chunk.length 0x3fff))).subset fun next reached => ?_
  cases reached with
  | refl => exact Set.mem_Iic.mpr (le_max_left _ _)
  | tail _ step => exact Set.mem_Iic.mpr (le_max_of_le_right step.bounded)

theorem forward_or_pointer {place next : Nat} (way : TransGen (Goes chunk) place next) :
    place < next ∨ ∃ back target, ReflTransGen (Goes chunk) place back ∧
      partAt chunk back = some (.pointer target) ∧ ReflTransGen (Goes chunk) target next := by
  induction way with
  | single step =>
    cases step with
    | label text here => exact .inl (by omega)
    | pointer _ here => exact .inr ⟨place, _, .refl, here, .refl⟩
  | @tail middle next way step ih =>
    rcases ih with less | ⟨back, target, before, pointer, after⟩
    · cases step with
      | label text here => exact .inl (by omega)
      | pointer _ here => exact .inr ⟨middle, _, way.to_reflTransGen, here, .refl⟩
    · exact .inr ⟨back, target, before, pointer, after.tail step⟩

theorem circular_iff_cycle (place : Nat) :
    Circular chunk place ↔ ∃ back, ReflTransGen (Goes chunk) place back ∧
      TransGen (Goes chunk) back back := by
  constructor
  · rintro ⟨back, target, reached, pointer, again⟩
    exact ⟨back, reached, .head' (.pointer back target pointer) again⟩
  · rintro ⟨back, reached, cycle⟩
    rcases forward_or_pointer cycle with less | ⟨middle, target, before, pointer, after⟩
    · exact absurd less (Nat.lt_irrefl back)
    · exact ⟨middle, target, reached.trans before, pointer, after.trans before⟩

theorem nameRound_sound (s t : NameState) (place : Nat)
    (there : start chunk s.left = start chunk (place + 1)) (goes_on : nameRound chunk s = .inl t) :
    ∃ next, Goes chunk place next ∧ start chunk t.left = start chunk (next + 1) := by
  rw [start_succ] at there
  split_ifs at there with inside
  · have taken := nameRound_part there
    cases here : partAt chunk place with
    | none =>
      rw [here] at taken
      obtain ⟨text, left⟩ := taken
      rw [goes_on] at left
      cases left
    | some part =>
      rw [here] at taken
      cases part with
      | root => cases goes_on.symm.trans taken
      | label text =>
        obtain rfl := Sum.inl.inj (goes_on.symm.trans taken)
        exact ⟨_, .label place text here, rfl⟩
      | pointer target =>
        obtain rfl := Sum.inl.inj (goes_on.symm.trans taken)
        exact ⟨_, .pointer place target here, rfl⟩
  · rw [nameRound_outside there] at goes_on
    cases goes_on

theorem nameRound_complete (s : NameState) (place next : Nat)
    (there : start chunk s.left = start chunk (place + 1)) (goes : Goes chunk place next) :
    ∃ t, nameRound chunk s = .inl t ∧ start chunk t.left = start chunk (next + 1) := by
  have inside : place < chunk.length := by
    cases goes with
    | label text here => exact partAt_inside here
    | pointer _ here => exact partAt_inside here
  rw [start_succ, if_pos inside.le] at there
  have taken := nameRound_part there
  cases goes with
  | label text here =>
    rw [here] at taken
    exact ⟨_, taken, rfl⟩
  | pointer _ here =>
    rw [here] at taken
    exact ⟨_, taken, rfl⟩

theorem unpackName_halts_iff (left : Int) :
    Loop.Halts (unpackName chunk left) ↔
      ∀ place, start chunk left = .ok place → ¬Circular chunk place := by
  cases there : start chunk left with
  | error text =>
    refine iff_of_true ⟨.error text, 1, ?_⟩ nofun
    exact Loop.run_inr (nameRound_outside there) 0
  | ok place =>
    have inside := start_ok there
    have first : start chunk left = start chunk (place + 1) := by rw [start_succ, if_pos inside, there]
    have ends := Loop.run_ends_iff
      (fun (s : NameState) (place : Nat) => start chunk s.left = start chunk (place + 1))
      nameRound_sound nameRound_complete (s := ⟨[], none, left⟩) first
    have free := ends.trans (Loop.acc_iff_no_cycle (reached_finite place))
    rw [← circular_iff_cycle] at free
    constructor
    · rintro halts _ same
      obtain rfl := Except.ok.inj same
      exact free.mp halts
    · exact fun straight => free.mpr (straight place rfl)

theorem Name.inside {place : Nat} {labels : List (List UInt8)} {behind : Nat}
    (name : Name chunk place labels behind) : place < chunk.length := by
  cases name with
  | root _ here => exact partAt_inside here
  | label _ _ _ _ here => exact partAt_inside here
  | pointer _ _ _ _ here => exact partAt_inside here

theorem nameRound_gives {s : NameState} {place : Nat} (there : start chunk s.left = .ok place)
    (name : List UInt8) (next : Int) :
    Loop.Gives (fun fuel => Loop.run (nameRound chunk) fuel s) (.ok (name, next)) ↔
      ∃ labels behind, Name chunk place labels behind ∧ name = concat (s.t ++ labels) ∧
        next = s.jumpPointer.getD ((behind : Nat) + 1) := by
  constructor
  · rintro ⟨fuel, done⟩
    change Loop.run (nameRound chunk) fuel s = some (.ok (name, next)) at done
    induction fuel generalizing s place with
    | zero => cases done
    | succ fuel ih =>
      have taken := nameRound_part there
      cases here : partAt chunk place with
      | none =>
        rw [here] at taken
        obtain ⟨text, left⟩ := taken
        rw [Loop.run_inr left] at done
        cases done
      | some part =>
        rw [here] at taken
        have later {t : NameState} {after : Nat} (goes_on : nameRound chunk s = .inl t)
            (left : t.left = (after : Nat) + 1) : ∃ labels behind, Name chunk after labels behind ∧
              name = concat (t.t ++ labels) ∧ next = t.jumpPointer.getD ((behind : Nat) + 1) := by
          rw [Loop.run_inl goes_on] at done
          have from_ := start_succ chunk after
          rw [← left] at from_
          split_ifs at from_ with inside
          · exact ih from_ done
          · cases fuel with
            | zero => cases done
            | succ fuel =>
              rw [Loop.run_inr (nameRound_outside from_)] at done
              cases done
        cases part with
        | root =>
          rw [Loop.run_inr taken] at done
          obtain ⟨rfl, rfl⟩ := Prod.mk.inj (Except.ok.inj (Option.some.inj done))
          exact ⟨[], place + 1, .root place here, by rw [List.append_nil], rfl⟩
        | label text =>
          obtain ⟨labels, behind, rest, joined, back⟩ := later taken rfl
          refine ⟨text :: labels, behind, .label place text labels behind here rest, ?_, back⟩
          rw [joined, List.append_assoc, List.singleton_append]
        | pointer target =>
          obtain ⟨labels, behind, rest, joined, back⟩ := later taken rfl
          exact ⟨labels, place + 2, .pointer place target labels behind here rest, joined, back⟩
  · rintro ⟨labels, behind, is, rfl, rfl⟩
    have later {s t : NameState} {result} (goes_on : nameRound chunk s = .inl t)
        (rest : Loop.Gives (fun fuel => Loop.run (nameRound chunk) fuel t) result) :
        Loop.Gives (fun fuel => Loop.run (nameRound chunk) fuel s) result := by
      obtain ⟨fuel, done⟩ := rest
      exact ⟨fuel + 1, (Loop.run_inl goes_on fuel).trans done⟩
    induction is generalizing s with
    | root place here =>
      have taken := nameRound_part there
      rw [here] at taken
      refine ⟨1, ?_⟩
      simp only [Loop.run_inr taken, List.append_nil]
    | label place text labels behind here rest ih =>
      have taken := nameRound_part there
      rw [here] at taken
      have there := start_succ chunk (place + 1 + text.length)
      rw [if_pos rest.inside.le] at there
      have done := later taken (ih there)
      rwa [List.append_assoc, List.singleton_append] at done
    | pointer place target labels behind here rest ih =>
      have taken := nameRound_part there
      rw [here] at taken
      have there := start_succ chunk target
      rw [if_pos rest.inside.le] at there
      exact later taken (ih there)

theorem unpackName_gives (left : Int) (name : List UInt8) (next : Int) :
    Loop.Gives (unpackName chunk left) (.ok (name, next)) ↔
      ∃ place labels behind, start chunk left = .ok place ∧ Name chunk place labels behind ∧
        name = concat labels ∧ next = (behind : Nat) + 1 := by
  cases there : start chunk left with
  | error text =>
    refine iff_of_false ?_ (by rintro ⟨_, _, _, same, -⟩; cases same)
    rintro ⟨fuel, done⟩
    cases fuel with
    | zero => cases done
    | succ fuel =>
      rw [unpackName, Loop.run_inr (nameRound_outside there)] at done
      cases done
  | ok place =>
    have gives := nameRound_gives (s := ⟨[], none, left⟩) there name next
    constructor
    · intro given
      obtain ⟨labels, behind, is, joined, back⟩ := gives.mp given
      exact ⟨place, labels, behind, rfl, is, joined, back⟩
    · rintro ⟨_, labels, behind, same, is, joined, back⟩
      obtain rfl := Except.ok.inj same
      exact gives.mpr ⟨labels, behind, is, joined, back⟩

example : unpackName [1, 97, 0, 0xc0, 0] 4 3 = some (.ok ([97], 6)) := by decide

theorem grows_unpackName (left : Int) : Loop.Grows (unpackName chunk left) :=
  Loop.grows_run (nameRound chunk) ⟨[], none, left⟩

end

end Pskynet.Dns
