import Pskynet.Shared.CInt
import Pskynet.Shared.LittleEndian

set_option autoImplicit false

namespace Pskynet.Mongo

open CInt LittleEndian

-- A `lightuserdata` for a document is its place, counted from the first byte of the reply. What
-- else is in the result table is left from an earlier reply.
inductive Entry where
  | document (place : Int)
  | left (id : Nat)
  deriving DecidableEq, Repr

abbrev Table := Nat → Option Entry

inductive Answer where
  | raised (text : String)
  | short
  | unequal (id : Int)
  | queryFailure (id document : Int)
  | reply (id : Int) (first : Option Int) (cursor : Option (List UInt8)) (startingFrom : Int)
  deriving DecidableEq, Repr

def Answer.succ : Answer → Bool
  | .reply _ _ _ _ => true
  | _ => false

def headerSize : Nat := 32

def wordAt (data : List UInt8) (place : Nat) : Nat := value ((data.drop place).take 4)

def intAt (data : List UInt8) (place : Nat) : Int := toInt (wordAt data place)

-- `get_length`; there are no bytes outside of the reply.
def getLength (data : List UInt8) (doc : Int) : Option Int :=
  if 0 ≤ doc ∧ doc + 4 ≤ data.length then some (intAt data doc.toNat) else none

-- The loop over the documents, which goes on until an `int` overflows if nothing ends it.
def replyLoop (data : List UInt8) (i : Nat) (doc sz : Int) (result : Table) :
    Option (Nat × Int × Table) :=
  if 4 < sz then
    let result := Function.update result i (some (.document doc))
    getLength data doc >>= fun doc_len =>
      arith (sz - doc_len) >>= fun sz =>
        if i + 1 < 2 ^ 31 then replyLoop data (i + 1) (doc + doc_len) sz result else none
  else some (i, sz, result)
termination_by 2 ^ 31 - i

def clear (result : Table) (i c : Nat) : Table :=
  fun k => if i ≤ k ∧ k ≤ c then none else result k

def queryFailed (data : List UInt8) : Prop := wordAt data 12 &&& 2 ≠ 0

instance (data : List UInt8) : Decidable (queryFailed data) := inferInstanceAs (Decidable (_ ≠ _))

def number (data : List UInt8) : Int := intAt data 28

def returned (data : List UInt8) (sz : Int) : Answer :=
  if sz ≠ 0 then .raised "Invalid result bson document"
  else
    .reply (intAt data 4) (if number data = 0 then none else some headerSize)
      (if wordAt data 16 = 0 ∧ wordAt data 20 = 0 then none else some ((data.drop 16).take 8))
      (intAt data 24)

def documentsSize (data : List UInt8) : Int := toInt (data.length - headerSize)

-- `rawlen` is what `lua_rawlen` finds for a table. What the source leaves undefined is none.
def opReply (rawlen : Table → Nat) (data : List UInt8) (result : Option Table) :
    Option (Option Table × Answer) :=
  if data.length < headerSize then some (result, .short)
  else if queryFailed data then some (result, .queryFailure (intAt data 4) headerSize)
  else
    match result with
    | some result =>
      replyLoop data 1 headerSize (documentsSize data) result >>= fun (i, sz, result) =>
        arith (number data + 1) >>= fun next =>
          if (i : Int) ≠ next then some (some result, .unequal (intAt data 4))
          else some (some (clear result i (rawlen result)), returned data sz)
    | none =>
      if 4 ≤ documentsSize data then
        getLength data headerSize >>= fun doc_len =>
          (arith (documentsSize data - doc_len)).map fun sz => (none, returned data sz)
      else some (none, returned data (documentsSize data))

def IsDocument (bytes : List UInt8) : Prop := 5 ≤ bytes.length ∧ intAt bytes 0 = bytes.length

def Valid (data : List UInt8) : Prop :=
  headerSize ≤ data.length ∧ ∃ docs : List (List UInt8), docs.flatten = data.drop headerSize ∧
    (∀ doc ∈ docs, IsDocument doc) ∧ (docs.length : Int) = number data

-- The reply is read without anything undefined, no place outside of it is stored in the table,
-- and success is reported for the replies that are valid.
def ParsesTotally (rawlen : Table → Nat) (data : List UInt8) (result : Table) : Prop :=
  ∃ result' answer, opReply rawlen data (some result) = some (some result', answer) ∧
    (∀ k place, result' k = some (.document place) →
      result k = some (.document place) ∨ (0 ≤ place ∧ place < data.length)) ∧
    (answer.succ = true ↔ Valid data)

-- The lengths that are met from a place on, each at a place in the reply, until four bytes or
-- fewer are left before `stop`.
inductive Walk (data : List UInt8) (stop : Int) : Int → List Int → Prop where
  | stop (place : Int) (few : stop - place ≤ 4) : Walk data stop place []
  | step (place : Int) (lens : List Int) (more : 4 < stop - place) (narrow : stop - place < 2 ^ 31)
      (inside : 0 ≤ place) (rest : Walk data stop (place + intAt data place.toNat) lens) :
      Walk data stop place (intAt data place.toNat :: lens)

-- The place where the `int` for the size sees the end of the reply
def endSeen (data : List UInt8) : Int := headerSize + documentsSize data

def Followed (data : List UInt8) : Prop :=
  number data < 2 ^ 31 - 1 ∧ ∃ lens, Walk data (endSeen data) headerSize lens ∧
    lens.length + 1 < 2 ^ 31 ∧
    if data.length < 2 ^ 31 + headerSize then
      lens.sum = data.length - headerSize → (lens.length : Int) = number data → ∀ len ∈ lens, 5 ≤ len
    else ¬Valid data ∧ ¬(lens.sum = documentsSize data ∧ (lens.length : Int) = number data)

-- The table after the documents at the places that are met are stored from `i` on.
def stored : Nat → Int → List Int → Table → Table
  | _, _, [], result => result
  | i, place, len :: lens, result =>
    stored (i + 1) (place + len) lens (Function.update result i (some (.document place)))

theorem intAt_range (data : List UInt8) (place : Nat) :
    -2 ^ 31 ≤ intAt data place ∧ intAt data place < 2 ^ 31 := toInt_range _

section

variable {data : List UInt8} {stop : Int}

theorem Walk.narrow {place : Int} {lens : List Int} (walk : Walk data stop place lens) :
    stop - place < 2 ^ 31 := by
  cases walk with
  | stop _ few => omega
  | step _ _ more narrow => exact narrow

theorem Walk.unique {place : Int} {lens others : List Int} (walk : Walk data stop place lens)
    (other : Walk data stop place others) : lens = others := by
  induction walk generalizing others with
  | stop place few =>
    cases other with
    | stop => rfl
    | step _ _ more => omega
  | step place lens more narrow inside rest ih =>
    cases other with
    | stop _ few => omega
    | step _ _ _ _ _ rest' => rw [ih rest']

theorem Walk.first {place : Int} {lens : List Int} (walk : Walk data stop place lens)
    (more : 4 < stop - place) : ∃ rest, lens = intAt data place.toNat :: rest ∧ 0 ≤ place ∧
      Walk data stop (place + intAt data place.toNat) rest := by
  cases walk with
  | stop _ few => omega
  | step _ lens _ _ inside rest => exact ⟨lens, rfl, inside, rest⟩

theorem Walk.last {place : Int} {lens : List Int} (walk : Walk data stop place lens)
    (few : stop - place ≤ 4) : lens = [] :=
  walk.unique (.stop place few)

theorem Walk.places {place : Int} {lens : List Int} (walk : Walk data stop place lens)
    (fits : stop ≤ data.length) (i : Nat) (result : Table) (k : Nat) (found : Int)
    (is : stored i place lens result k = some (.document found)) :
    result k = some (.document found) ∨ (0 ≤ found ∧ found < data.length) := by
  induction walk generalizing i result with
  | stop => exact .inl is
  | step place lens more narrow inside rest ih =>
    rcases ih _ _ is with before | now
    · by_cases here : k = i
      · rw [here, Function.update_self, Option.some.injEq, Entry.document.injEq] at before
        exact .inr (by omega)
      · rw [Function.update_of_ne here] at before
        exact .inl before
    · exact .inr now

theorem getLength_inside {place : Int} (fits : stop ≤ data.length) (more : 4 < stop - place)
    (inside : 0 ≤ place) : getLength data place = some (intAt data place.toNat) :=
  if_pos ⟨inside, by omega⟩

theorem replyLoop_walk {place : Int} {lens : List Int} (walk : Walk data stop place lens)
    (fits : stop ≤ data.length) (i : Nat) (result : Table) (few : i + lens.length < 2 ^ 31) :
    replyLoop data i place (stop - place) result =
      some (i + lens.length, stop - (place + lens.sum), stored i place lens result) := by
  induction walk generalizing i result with
  | stop place done =>
    rw [replyLoop, if_neg (by omega), List.sum_nil, Int.add_zero]
    rfl
  | step place lens more narrow inside rest ih =>
    rw [List.length_cons] at few
    have range := intAt_range data place.toNat
    have later := rest.narrow
    have size : stop - place - intAt data place.toNat = stop - (place + intAt data place.toNat) := by
      omega
    have moved : arith (stop - place - intAt data place.toNat) =
        some (stop - (place + intAt data place.toNat)) := by
      rw [size]
      exact arith_eq (by omega) later
    have next := ih (i + 1) (Function.update result i (some (.document place))) (by omega)
    rw [replyLoop, if_pos more, getLength_inside fits more inside]
    change (arith (stop - place - intAt data place.toNat) >>= _) = _
    rw [moved]
    change (if i + 1 < 2 ^ 31 then _ else _) = _
    rw [if_pos (by omega), next, List.sum_cons, List.length_cons, Int.add_assoc, Nat.add_assoc,
      Nat.add_comm 1]
    rfl

theorem walk_of_replyLoop {place : Int} {i : Nat} {result : Table} {left : Nat × Int × Table}
    (done : replyLoop data i place (stop - place) result = some left) (few : i < 2 ^ 31)
    (narrow : stop - place < 2 ^ 31) :
    ∃ lens, Walk data stop place lens ∧ i + lens.length < 2 ^ 31 := by
  induction size : 2 ^ 31 - i using Nat.strong_induction_on generalizing i place result with
  | _ n ih =>
    by_cases more : 4 < stop - place
    · rw [replyLoop, if_pos more] at done
      obtain ⟨doc_len, read, done⟩ := Option.bind_eq_some_iff.mp done
      obtain ⟨sz, moved, done⟩ := Option.bind_eq_some_iff.mp done
      obtain ⟨rfl, low, high⟩ := arith_some moved
      obtain ⟨next, done⟩ := Option.ite_none_right_eq_some.mp done
      obtain ⟨⟨inside, room⟩, same⟩ := Option.ite_none_right_eq_some.mp read
      obtain rfl := Option.some.inj same
      have size' : stop - place - intAt data place.toNat =
          stop - (place + intAt data place.toNat) := by omega
      rw [size'] at done
      obtain ⟨lens, walk, bound⟩ := ih (2 ^ 31 - (i + 1)) (by omega) done next (by omega) rfl
      exact ⟨_, .step place lens more narrow inside walk, by rw [List.length_cons]; omega⟩
    · exact ⟨[], .stop place (by omega), few⟩

theorem intAt_document {place : Nat} {doc rest : List UInt8} (here : data.drop place = doc ++ rest)
    (is : IsDocument doc) : intAt data place = doc.length := by
  rw [← is.2]
  unfold intAt wordAt
  rw [here, List.take_append_of_le_length (by have := is.1; omega), List.drop_zero]

theorem Walk.front {place : Int} {lens : List Int} (walk : Walk data stop place lens)
    (fits : stop ≤ data.length) {n : Nat} (at_ : place = n) {docs : List (List UInt8)}
    (tiled : docs.flatten = data.drop n) (each : ∀ doc ∈ docs, IsDocument doc) :
    lens <+: docs.map fun doc => (doc.length : Int) := by
  induction walk generalizing n docs with
  | stop => exact List.nil_prefix
  | step place lens more narrow inside rest ih =>
    subst at_
    cases docs with
    | nil =>
      have length := congrArg List.length tiled
      rw [List.flatten_nil, List.length_nil, List.length_drop] at length
      omega
    | cons doc docs =>
      rw [List.flatten_cons] at tiled
      have is := each doc List.mem_cons_self
      have len := intAt_document tiled.symm is
      rw [Int.toNat_natCast, len] at ih ⊢
      rw [List.map_cons, List.cons_prefix_cons]
      refine ⟨rfl, ih (n := n + doc.length) (by omega) ?_ ?_⟩
      · rw [← List.drop_drop, ← tiled, List.drop_left]
      · exact fun other inside => each other (List.mem_cons_of_mem doc inside)

theorem Walk.of_documents {n : Nat} {docs : List (List UInt8)} (tiled : docs.flatten = data.drop n)
    (each : ∀ doc ∈ docs, IsDocument doc) (narrow : data.length < 2 ^ 31 + n) (begins : n ≤ data.length) :
    Walk data data.length n (docs.map fun doc => (doc.length : Int)) := by
  induction docs generalizing n with
  | nil =>
    have length := congrArg List.length tiled
    rw [List.flatten_nil, List.length_nil, List.length_drop] at length
    exact .stop _ (by omega)
  | cons doc docs ih =>
    have length := congrArg List.length tiled
    rw [List.flatten_cons, List.length_append, List.length_drop] at length
    rw [List.flatten_cons] at tiled
    have is := each doc List.mem_cons_self
    have five := is.1
    have len := intAt_document tiled.symm is
    have rest : docs.flatten = data.drop (n + doc.length) := by
      rw [← List.drop_drop, ← tiled, List.drop_left]
    have later := ih rest (fun other inside => each other (List.mem_cons_of_mem doc inside))
      (by omega) (by omega)
    have along : Walk data data.length ((n : Int) + intAt data (n : Int).toNat)
        (docs.map fun doc => (doc.length : Int)) := by
      rw [Int.toNat_natCast, len]
      exact later
    have step := Walk.step (n : Int) _ (by omega) (by omega) (by omega) along
    rwa [Int.toNat_natCast, len] at step

theorem Walk.documents {place : Int} {lens : List Int} (walk : Walk data data.length place lens)
    {n : Nat} (at_ : place = n) (ends : place + lens.sum = data.length) (each : ∀ len ∈ lens, 5 ≤ len) :
    ∃ docs : List (List UInt8), docs.flatten = data.drop n ∧ (∀ doc ∈ docs, IsDocument doc) ∧
      docs.length = lens.length := by
  generalize whole : (data.length : Int) = stop at walk
  induction walk generalizing n with
  | stop place few =>
    rw [List.sum_nil] at ends
    exact ⟨[], by rw [List.flatten_nil, List.drop_eq_nil_of_le (by omega)], nofun, rfl⟩
  | step place lens more narrow inside rest ih =>
    subst at_
    rw [Int.toNat_natCast] at ih ends each rest ⊢
    rw [List.sum_cons] at ends
    have long := each _ List.mem_cons_self
    have later : ∀ len ∈ lens, 5 ≤ len := fun len inside => each len (List.mem_cons_of_mem _ inside)
    obtain ⟨len, is⟩ := Int.eq_ofNat_of_zero_le (by omega : 0 ≤ intAt data n)
    rw [is] at ih long ends rest
    have within : n + len ≤ data.length := by
      have positive : 0 ≤ lens.sum := List.sum_nonneg fun l inside => by
        have := later l inside
        omega
      omega
    obtain ⟨docs, tiled, all, count⟩ := ih (n := n + len) (by omega) (by omega) later
    refine ⟨(data.drop n).take len :: docs, ?_, ?_, ?_⟩
    · rw [List.flatten_cons, tiled, ← List.drop_drop, List.take_append_drop]
    · rw [List.forall_mem_cons]
      refine ⟨⟨?_, ?_⟩, all⟩
      · rw [List.length_take, List.length_drop]
        omega
      · rw [List.length_take, List.length_drop]
        unfold intAt wordAt
        rw [List.drop_zero, List.take_take, Nat.min_eq_left (by omega)]
        change intAt data n = _
        rw [is]
        omega
    · rw [List.length_cons, List.length_cons, count]

end

theorem toInt_le {n : Int} (nonneg : 0 ≤ n) : toInt n ≤ n := by
  have small : n % ((2 ^ 32 : Nat) : Int) ≤ n := by omega
  rw [toInt, Int.bmod_def]
  split_ifs <;> omega

section

variable {data : List UInt8}

theorem endSeen_le (whole : headerSize ≤ data.length) : endSeen data ≤ data.length := by
  have size : documentsSize data ≤ data.length - headerSize := toInt_le (by omega)
  unfold endSeen
  omega

theorem documentsSize_eq (whole : headerSize ≤ data.length)
    (narrow : data.length < 2 ^ 31 + headerSize) :
    documentsSize data = data.length - headerSize := toInt_eq (by omega) (by omega)

theorem endSeen_narrow : endSeen data - headerSize < 2 ^ 31 := by
  have range : documentsSize data < 2 ^ 31 := (toInt_range _).2
  unfold endSeen
  omega

theorem walk_size {lens : List Int} :
    endSeen data - (headerSize + lens.sum) = 0 ↔ lens.sum = documentsSize data := by
  unfold endSeen
  omega

theorem returned_succ (sz : Int) : (returned data sz).succ = true ↔ sz = 0 := by
  unfold returned
  by_cases zero : sz = 0
  · rw [if_neg (not_not.mpr zero)]
    exact iff_of_true rfl zero
  · rw [if_pos zero]
    exact iff_of_false Bool.false_ne_true zero

theorem bind_some {α β : Type} {o : Option α} {a : α} {f : α → Option β} (is : o = some a) :
    (o >>= f) = f a := by
  rw [is]
  rfl

theorem opReply_walk (rawlen : Table → Nat) (result : Table) (whole : headerSize ≤ data.length)
    (asked : ¬queryFailed data) {lens : List Int}
    (walk : Walk data (endSeen data) headerSize lens) (few : lens.length + 1 < 2 ^ 31)
    (counted : number data < 2 ^ 31 - 1) :
    opReply rawlen data (some result) =
      if (lens.length : Int) ≠ number data then
        some (some (stored 1 headerSize lens result), .unequal (intAt data 4))
      else
        some (some (clear (stored 1 headerSize lens result) (1 + lens.length)
          (rawlen (stored 1 headerSize lens result))),
            returned data (endSeen data - (headerSize + lens.sum))) := by
  have low : -2 ^ 31 ≤ number data := (intAt_range data 28).1
  have loop := replyLoop_walk walk (endSeen_le whole) 1 result (by omega)
  have size : documentsSize data = endSeen data - headerSize := by
    unfold endSeen
    omega
  have next : arith (number data + 1) = some (number data + 1) := arith_eq (by omega) (by omega)
  have same : ((1 + lens.length : Nat) : Int) ≠ number data + 1 ↔
      (lens.length : Int) ≠ number data := by omega
  rw [← size] at loop
  rw [opReply, if_neg (by omega), if_neg asked]
  refine (bind_some loop).trans ((bind_some next).trans ?_)
  by_cases unequal : (lens.length : Int) ≠ number data
  · rw [if_pos unequal, if_pos (same.mpr unequal)]
  · rw [if_neg unequal, if_neg (same.not.mpr unequal)]

theorem walk_of_opReply {rawlen : Table → Nat} {result : Table}
    {done : Option Table × Answer} (whole : headerSize ≤ data.length) (asked : ¬queryFailed data)
    (is : opReply rawlen data (some result) = some done) :
    ∃ lens, Walk data (endSeen data) headerSize lens ∧ lens.length + 1 < 2 ^ 31 ∧
      number data < 2 ^ 31 - 1 := by
  have size : documentsSize data = endSeen data - headerSize := by
    unfold endSeen
    omega
  rw [opReply, if_neg (by omega), if_neg asked] at is
  simp only [size] at is
  obtain ⟨left, loop, later⟩ := Option.bind_eq_some_iff.mp is
  obtain ⟨next, counted, -⟩ := Option.bind_eq_some_iff.mp later
  obtain ⟨rfl, -, high⟩ := arith_some counted
  obtain ⟨lens, walk, few⟩ := walk_of_replyLoop loop (by decide) endSeen_narrow
  exact ⟨lens, walk, by omega, by omega⟩

theorem sum_lengths (docs : List (List UInt8)) :
    (docs.map fun doc => (doc.length : Int)).sum = ((docs.map List.length).sum : Nat) := by
  rw [Nat.cast_list_sum, List.map_map]
  rfl

theorem valid_iff (whole : headerSize ≤ data.length) (narrow : data.length < 2 ^ 31 + headerSize)
    {lens : List Int} (walk : Walk data (endSeen data) headerSize lens) :
    Valid data ↔ (∀ len ∈ lens, 5 ≤ len) ∧ lens.sum = documentsSize data ∧
      (lens.length : Int) = number data := by
  have size := documentsSize_eq whole narrow
  have stop : endSeen data = data.length := by
    unfold endSeen
    omega
  rw [stop] at walk
  constructor
  · rintro ⟨-, docs, tiled, each, count⟩
    have along := Walk.of_documents tiled each (by omega) whole
    obtain rfl := walk.unique along
    refine ⟨?_, ?_, ?_⟩
    · intro len inside
      obtain ⟨doc, member, rfl⟩ := List.mem_map.mp inside
      exact_mod_cast (each doc member).1
    · have length := congrArg List.length tiled
      rw [List.length_flatten, List.length_drop] at length
      have cast := sum_lengths docs
      omega
    · rwa [List.length_map]
  · rintro ⟨each, total, count⟩
    obtain ⟨docs, tiled, all, same⟩ := walk.documents rfl (by omega) each
    exact ⟨whole, docs, tiled, all, by omega⟩

theorem huge_invalid (whole : headerSize ≤ data.length) (huge : 2 ^ 31 + headerSize ≤ data.length)
    {lens : List Int} (walk : Walk data (endSeen data) headerSize lens)
    (total : lens.sum = documentsSize data) (count : (lens.length : Int) = number data) :
    ¬Valid data := by
  rintro ⟨-, docs, tiled, each, same⟩
  have front := walk.front (endSeen_le whole) rfl tiled each
  have equal := front.eq_of_length (by rw [List.length_map]; omega)
  have length := congrArg List.length tiled
  rw [List.length_flatten, List.length_drop] at length
  have cast := sum_lengths docs
  have narrow : documentsSize data < 2 ^ 31 := (toInt_range _).2
  rw [equal, cast] at total
  omega

theorem followed_iff (whole : headerSize ≤ data.length) {lens : List Int}
    (walk : Walk data (endSeen data) headerSize lens) :
    ((lens.sum = documentsSize data ∧ (lens.length : Int) = number data) ↔ Valid data) ↔
      if data.length < 2 ^ 31 + headerSize then
        lens.sum = data.length - headerSize → (lens.length : Int) = number data →
          ∀ len ∈ lens, 5 ≤ len
      else ¬Valid data ∧ ¬(lens.sum = documentsSize data ∧ (lens.length : Int) = number data) := by
  split_ifs with narrow
  · rw [valid_iff whole narrow walk, ← documentsSize_eq whole narrow]
    constructor
    · exact fun same total count => (same.mp ⟨total, count⟩).1
    · intro long
      exact ⟨fun both => ⟨long both.1 both.2, both⟩, fun all => all.2⟩
  · have invalid := huge_invalid whole (by omega) walk
    constructor
    · intro same
      have never : ¬(lens.sum = documentsSize data ∧ (lens.length : Int) = number data) :=
        fun both => invalid both.1 both.2 (same.mp both)
      exact ⟨fun valid => never (same.mpr valid), never⟩
    · exact fun neither => iff_of_false neither.2 neither.1

theorem clear_some {result : Table} {i c k : Nat} {entry : Entry}
    (is : clear result i c k = some entry) : result k = some entry := by
  unfold clear at is
  split_ifs at is
  exact is

theorem followed_of_parses {rawlen : Table → Nat} {result : Table}
    (parses : ParsesTotally rawlen data result) (whole : headerSize ≤ data.length)
    (asked : ¬queryFailed data) : Followed data := by
  obtain ⟨result', answer', is, -, succ⟩ := parses
  obtain ⟨lens, walk, few, counted⟩ := walk_of_opReply whole asked is
  refine ⟨counted, lens, walk, few, (followed_iff whole walk).mp ?_⟩
  rw [opReply_walk rawlen result whole asked walk few counted] at is
  rw [← succ]
  split_ifs at is with unequal
  · rw [Option.some.injEq, Prod.mk.injEq] at is
    obtain ⟨-, rfl⟩ := is
    exact iff_of_false (fun both => unequal both.2) Bool.false_ne_true
  · rw [Option.some.injEq, Prod.mk.injEq] at is
    obtain ⟨-, rfl⟩ := is
    rw [returned_succ, walk_size, and_iff_left (not_not.mp unequal)]

theorem parses_of_followed (rawlen : Table → Nat) (result : Table) (whole : headerSize ≤ data.length)
    (asked : ¬queryFailed data) (followed : Followed data) : ParsesTotally rawlen data result := by
  obtain ⟨counted, lens, walk, few, right⟩ := followed
  have valid := (followed_iff whole walk).mpr right
  have answer := opReply_walk rawlen result whole asked walk few counted
  by_cases unequal : (lens.length : Int) ≠ number data
  · rw [if_pos unequal] at answer
    refine ⟨_, _, answer, walk.places (endSeen_le whole) 1 result, ?_⟩
    rw [← valid]
    exact iff_of_false Bool.false_ne_true fun both => unequal both.2
  · rw [if_neg unequal] at answer
    refine ⟨_, _, answer, ?_, ?_⟩
    · exact fun k place is => walk.places (endSeen_le whole) 1 result k place (clear_some is)
    · rw [returned_succ, walk_size, ← valid, and_iff_left (not_not.mp unequal)]

theorem parses_iff (rawlen : Table → Nat) (data : List UInt8) (result : Table) :
    ParsesTotally rawlen data result ↔ data.length < headerSize ∨
      headerSize ≤ data.length ∧
        (queryFailed data ∧ ¬Valid data ∨ ¬queryFailed data ∧ Followed data) := by
  rcases Nat.lt_or_ge data.length headerSize with short | whole
  · have answer : opReply rawlen data (some result) = some (some result, .short) := if_pos short
    have invalid : ¬Valid data := fun valid => absurd valid.1 (by omega)
    refine iff_of_true ⟨result, .short, answer, fun k place is => .inl is, ?_⟩ (.inl short)
    exact iff_of_false Bool.false_ne_true invalid
  · rw [or_iff_right (Nat.not_lt.mpr whole), and_iff_right whole]
    by_cases failed : queryFailed data
    · have answer : opReply rawlen data (some result) =
          some (some result, .queryFailure (intAt data 4) headerSize) := by
        rw [opReply, if_neg (Nat.not_lt.mpr whole), if_pos failed]
      rw [and_iff_right failed, or_iff_left fun both => both.1 failed]
      constructor
      · rintro ⟨result', answer', is, -, succ⟩
        rw [answer, Option.some.injEq, Prod.mk.injEq] at is
        obtain ⟨-, rfl⟩ := is
        exact fun valid => Bool.false_ne_true (succ.mpr valid)
      · intro invalid
        refine ⟨result, _, answer, fun k place is => .inl is, ?_⟩
        exact iff_of_false Bool.false_ne_true invalid
    · rw [and_iff_right failed, or_iff_right fun both => failed both.1]
      constructor
      · exact fun parses => followed_of_parses parses whole failed
      · exact parses_of_followed rawlen result whole failed

end

def plainReply (count : UInt8) (documents : List UInt8) : List UInt8 :=
  List.replicate 28 0 ++ [count, 0, 0, 0] ++ documents

theorem lengths_unchecked :
    ¬ParsesTotally (fun _ => 0) (plainReply 1 [0, 0, 0, 0, 0]) (fun _ => none) ∧
      ¬ParsesTotally (fun _ => 0) (plainReply 1 [223, 255, 255, 255, 0]) (fun _ => none) ∧
      ¬ParsesTotally (fun _ => 0) (plainReply 2 [4, 0, 0, 0, 5, 0, 0, 0, 0]) (fun _ => none) := by
  have follows (count : UInt8) (documents : List UInt8)
      (parses : ParsesTotally (fun _ => 0) (plainReply count documents) fun _ => none)
      (asked : ¬queryFailed (plainReply count documents)) : Followed (plainReply count documents) :=
    followed_of_parses parses (by simp [plainReply, headerSize]) asked
  refine ⟨?_, ?_, ?_⟩
  · intro parses
    obtain ⟨-, lens, walk, -⟩ := follows _ _ parses (by decide)
    obtain ⟨rest, rfl, -, again⟩ := walk.first (by decide +kernel)
    have stays : (headerSize : Int) + intAt (plainReply 1 [0, 0, 0, 0, 0]) 32 = headerSize := by
      decide +kernel
    have same := walk.unique (stays ▸ again)
    exact absurd (congrArg List.length same) (Nat.succ_ne_self _)
  · intro parses
    obtain ⟨-, lens, walk, -⟩ := follows _ _ parses (by decide)
    obtain ⟨rest, rfl, -, before⟩ := walk.first (by decide +kernel)
    obtain ⟨-, -, inside, -⟩ := before.first (by decide +kernel)
    exact absurd inside (by decide +kernel)
  · intro parses
    obtain ⟨-, lens, walk, -, right⟩ := follows _ _ parses (by decide)
    obtain ⟨rest, rfl, -, second⟩ := walk.first (by decide +kernel)
    obtain ⟨rest, rfl, -, third⟩ := second.first (by decide +kernel)
    obtain rfl := third.last (by decide +kernel)
    rw [if_pos (by decide)] at right
    have long := right (by decide +kernel) (by decide +kernel) _ List.mem_cons_self
    exact absurd long (by decide +kernel)

end Pskynet.Mongo
