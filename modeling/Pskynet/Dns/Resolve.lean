import Pskynet.Dns.Name
import Pskynet.Shared.Outcome

set_option autoImplicit false

namespace Pskynet.Dns

def NextAnswer (content : Chunk) (qtype place next : Nat) : Prop :=
  ∃ labels behind answer, Name content place labels behind ∧
    readAnswer content (concat labels) behind = .ok (answer, next) ∧
    (answer.atype = qtype → ∃ ip, unpackRdata qtype answer.rdata = .ok ip)

inductive NthAnswer (content : Chunk) (qtype : Nat) : Nat → Nat → Nat → Prop where
  | first (place : Nat) : NthAnswer content qtype 0 place place
  | later (i place next nth : Nat) (step : NextAnswer content qtype place next)
      (rest : NthAnswer content qtype i next nth) : NthAnswer content qtype (i + 1) place nth

inductive NamePlace (pool : Pool) (content : Chunk) : Nat → Prop where
  | question (header : Header) (left : Int) (resp : Request) (long : dnsHeaderLen ≤ content.length)
      (read : unpackHeader content = .ok (header, left)) (one : header.qdcount = 1)
      (waits : pool (Int64.ofNat header.tid) = some resp) : NamePlace pool content dnsHeaderLen
  | answer (header : Header) (left : Int) (resp : Request) (long : dnsHeaderLen ≤ content.length)
      (read : unpackHeader content = .ok (header, left)) (one : header.qdcount = 1)
      (waits : pool (Int64.ofNat header.tid) = some resp) (labels : List (List UInt8))
      (behind first i place : Nat) (question : Question)
      (name : Name content dnsHeaderLen labels behind)
      (rest : readQuestion content (concat labels) behind = .ok (question, first))
      (asked : question.name = resp.name) (counted : i < header.ancount)
      (nth : NthAnswer content resp.qtype i first place) : NamePlace pool content place

section

variable {chunk : Chunk}

theorem partAt_pointer_inside {place target : Nat}
    (here : partAt chunk place = some (.pointer target)) : place + 2 ≤ chunk.length := by
  unfold partAt at here
  cases tail : chunk.drop place with
  | nil => rw [tail] at here; cases here
  | cons tag rest =>
    have total := congrArg List.length tail
    rw [List.length_drop, List.length_cons] at total
    rw [tail] at here
    simp only at here
    split_ifs at here with pointer
    · cases rest with
      | nil => cases here
      | cons low rest =>
        rw [List.length_cons] at total
        omega
    · cases here
    · cases here

theorem Name.behind_le {place : Nat} {labels : List (List UInt8)} {behind : Nat}
    (name : Name chunk place labels behind) : behind ≤ chunk.length := by
  induction name with
  | root place here => exact partAt_inside here
  | label place text labels behind here rest ih => exact ih
  | pointer place target labels behind here rest ih => exact partAt_pointer_inside here

theorem unpackInt_next {size pos v next : Nat} (read : unpackInt chunk size pos = .ok (v, next)) :
    next = pos + size := by
  unfold unpackInt at read
  split_ifs at read
  exact (congrArg Prod.snd (Except.ok.inj read)).symm

theorem map_ok_pair {α : Type} {read : Except String (α × Nat)} {a : α} {next : Int} :
    (read.map fun (a, pos) => (a, (pos : Int) + 1)) = .ok (a, next) ↔
      ∃ pos, read = .ok (a, pos) ∧ next = (pos : Nat) + 1 := by
  cases read with
  | error text => exact iff_of_false nofun (by rintro ⟨_, same, -⟩; cases same)
  | ok both =>
    obtain ⟨b, pos⟩ := both
    constructor
    · intro same
      obtain ⟨rfl, rfl⟩ := Prod.mk.inj (Except.ok.inj same)
      exact ⟨pos, rfl, rfl⟩
    · rintro ⟨_, same, rfl⟩
      obtain ⟨rfl, rfl⟩ := Prod.mk.inj (Except.ok.inj same)
      rfl

section

variable {α : Type} (read : List UInt8 → Nat → Except String (α × Nat))

def unpackRecord (chunk : Chunk) (left : Int) : Nat → Option (Except String (α × Int)) :=
  Loop.bind (unpackName chunk left) fun (name, left) _ => some (unpack chunk (read name) left)

theorem grows_unpackRecord (left : Int) : Loop.Grows (unpackRecord read chunk left) :=
  Loop.grows_bind (grows_unpackName left) fun _ => Loop.grows_const _

theorem unpackRecord_halts_iff (left : Int) :
    Loop.Halts (unpackRecord read chunk left) ↔
      ∀ place, start chunk left = .ok place → ¬Circular chunk place := by
  rw [← unpackName_halts_iff, unpackRecord,
    Loop.halts_bind (grows_unpackName left) fun _ => Loop.grows_const _]
  exact and_iff_left fun _ _ => Loop.halts_const _

theorem unpackRecord_gives (left : Int) (a : α) (next : Int) :
    Loop.Gives (unpackRecord read chunk left) (.ok (a, next)) ↔
      ∃ place labels behind after, start chunk left = .ok place ∧ Name chunk place labels behind ∧
        read (concat labels) behind = .ok (a, after) ∧ next = (after : Nat) + 1 := by
  rw [unpackRecord, Loop.gives_bind (grows_unpackName left) fun _ => Loop.grows_const _]
  constructor
  · rintro ⟨⟨name, left'⟩, named, rest⟩
    obtain ⟨place, labels, behind, there, is, rfl, rfl⟩ := (unpackName_gives left name left').mp named
    have rest := (unpack_succ is.behind_le).symm.trans (Loop.gives_const.mp rest)
    obtain ⟨after, done, rfl⟩ := map_ok_pair.mp rest
    exact ⟨place, labels, behind, after, there, is, done, rfl⟩
  · rintro ⟨place, labels, behind, after, there, is, rest, rfl⟩
    refine ⟨(concat labels, (behind : Nat) + 1), ?_, ?_⟩
    · exact (unpackName_gives left _ _).mpr ⟨place, labels, behind, there, is, rfl, rfl⟩
    · refine Loop.gives_const.mpr ((unpack_succ is.behind_le).trans ?_)
      exact map_ok_pair.mpr ⟨after, rest, rfl⟩

end

theorem start_place {place : Nat} (inside : place ≤ chunk.length) :
    start chunk (place + 1) = .ok place := by rw [start_succ, if_pos inside]

theorem start_place_eq {place other : Nat} (is : start chunk (place + 1) = .ok other) :
    other = place := by
  rw [start_succ] at is
  split_ifs at is
  exact (Except.ok.inj is).symm

theorem Circular.inside {place : Nat} (circular : Circular chunk place) : place < chunk.length := by
  obtain ⟨back, target, reached, pointer, again⟩ := circular
  cases reached.cases_head with
  | inl same => exact same ▸ partAt_inside pointer
  | inr step =>
    obtain ⟨next, goes, -⟩ := step
    cases goes with
    | label text here => exact partAt_inside here
    | pointer _ here => exact partAt_inside here

theorem unpackRecord_halts_place {α : Type} (read : List UInt8 → Nat → Except String (α × Nat))
    (place : Nat) :
    Loop.Halts (unpackRecord read chunk ((place : Nat) + 1)) ↔ ¬Circular chunk place := by
  rw [unpackRecord_halts_iff]
  constructor
  · exact fun straight circular => straight place (start_place circular.inside.le) circular
  · rintro straight other there
    obtain rfl := start_place_eq there
    exact straight

def answersRest (chunk : Chunk) (qtype n : Nat) (answers : List String) (both : Answer × Int) :
    Nat → Option (Except String (List String)) :=
  if both.1.atype = qtype then
    Loop.bind (fun _ => some (unpackRdata qtype both.1.rdata)) fun ip =>
      unpackAnswers chunk qtype n both.2 (answers ++ [ip])
  else unpackAnswers chunk qtype n both.2 answers

theorem unpackAnswers_succ (qtype n : Nat) (left : Int) (answers : List String) :
    unpackAnswers chunk qtype (n + 1) left answers =
      Loop.bind (unpackRecord (readAnswer chunk) chunk left) (answersRest chunk qtype n answers) :=
  rfl

mutual

theorem grows_unpackAnswers (qtype n : Nat) (left : Int) (answers : List String) :
    Loop.Grows (unpackAnswers chunk qtype n left answers) := by
  cases n with
  | zero => exact Loop.grows_const _
  | succ n =>
    rw [unpackAnswers_succ]
    exact Loop.grows_bind (grows_unpackRecord _ left) (grows_answersRest qtype n answers)

theorem grows_answersRest (qtype n : Nat) (answers : List String) (both : Answer × Int) :
    Loop.Grows (answersRest chunk qtype n answers both) := by
  unfold answersRest
  split_ifs
  · exact Loop.grows_bind (Loop.grows_const _) fun ip => grows_unpackAnswers _ n _ _
  · exact grows_unpackAnswers _ n _ _

end

theorem answersRest_halts_iff {qtype n : Nat} {left : Int} {straight : Prop}
    (same : ∀ answers, Loop.Halts (unpackAnswers chunk qtype n left answers) ↔ straight)
    (answers : List String) (answer : Answer) :
    Loop.Halts (answersRest chunk qtype n answers (answer, left)) ↔
      ((answer.atype = qtype → ∃ ip, unpackRdata qtype answer.rdata = .ok ip) → straight) := by
  unfold answersRest
  by_cases asked : answer.atype = qtype
  · rw [if_pos asked, Loop.halts_bind (Loop.grows_const _) fun _ => grows_unpackAnswers _ _ _ _,
      and_iff_right (Loop.halts_const _)]
    constructor
    · intro rest readable
      obtain ⟨ip, read⟩ := readable asked
      exact (same _).mp (rest ip (Loop.gives_const.mpr read))
    · intro rest ip read
      exact (same _).mpr (rest fun _ => ⟨ip, Loop.gives_const.mp read⟩)
  · rw [if_neg asked, same]
    exact ⟨fun holds _ => holds, fun rest => rest fun is => absurd is asked⟩

theorem unpackAnswers_halts_iff (qtype n place : Nat) (answers : List String) :
    Loop.Halts (unpackAnswers chunk qtype n ((place : Nat) + 1) answers) ↔
      ∀ i < n, ∀ nth, NthAnswer chunk qtype i place nth → ¬Circular chunk nth := by
  induction n generalizing place answers with
  | zero => exact iff_of_true (Loop.halts_const _) nofun
  | succ n ih =>
    rw [unpackAnswers_succ, Loop.halts_bind (grows_unpackRecord _ _) (grows_answersRest _ _ _),
      unpackRecord_halts_place]
    constructor
    · rintro ⟨straight, rest⟩ i counted nth is
      cases is with
      | first => exact straight
      | later i _ next _ step is =>
        obtain ⟨labels, behind, answer, name, read, readable⟩ := step
        have given := (unpackRecord_gives (readAnswer chunk) ((place : Nat) + 1) answer _).mpr
          ⟨place, labels, behind, next, start_place name.inside.le, name, read, rfl⟩
        have later := (answersRest_halts_iff (ih next) answers answer).mp (rest _ given) readable
        exact later i (Nat.lt_of_succ_lt_succ counted) nth is
    · intro straight
      refine ⟨straight 0 (Nat.succ_pos n) place (.first place), ?_⟩
      rintro ⟨answer, left⟩ given
      obtain ⟨other, labels, behind, next, there, name, read, rfl⟩ :=
        (unpackRecord_gives (readAnswer chunk) ((place : Nat) + 1) answer left).mp given
      obtain rfl := start_place_eq there
      refine (answersRest_halts_iff (ih next) answers answer).mpr ?_
      intro readable i counted nth is
      refine straight (i + 1) (Nat.succ_lt_succ counted) nth (.later i _ next nth ?_ is)
      exact ⟨labels, behind, answer, name, read, readable⟩

theorem unpackHeader_left {header : Header} {left : Int} (read : unpackHeader chunk = .ok (header, left)) :
    left = (dnsHeaderLen : Nat) + 1 := by
  have first : start chunk ((0 : Nat) + 1) = .ok 0 := start_place (Nat.zero_le _)
  obtain ⟨pos, whole, rfl⟩ := map_ok_pair.mp ((unpack_at first).symm.trans read)
  obtain ⟨⟨tid, p1⟩, r1, whole⟩ := Outcome.bind_ok.mp whole
  obtain ⟨⟨flags, p2⟩, r2, whole⟩ := Outcome.bind_ok.mp whole
  obtain ⟨⟨qdcount, p3⟩, r3, whole⟩ := Outcome.bind_ok.mp whole
  obtain ⟨⟨ancount, p4⟩, r4, whole⟩ := Outcome.bind_ok.mp whole
  obtain ⟨⟨nscount, p5⟩, r5, whole⟩ := Outcome.bind_ok.mp whole
  obtain ⟨⟨arcount, p6⟩, r6, whole⟩ := Outcome.map_ok.mp whole
  obtain rfl := congrArg Prod.snd whole
  have n1 := unpackInt_next r1
  have n2 := unpackInt_next r2
  have n3 := unpackInt_next r3
  have n4 := unpackInt_next r4
  have n5 := unpackInt_next r5
  have n6 := unpackInt_next r6
  simp only [dnsHeaderLen] at *
  omega

end

def requestRest (pool : Pool) (content : Chunk) (header : Header) (resp : Request)
    (both : Question × Int) : Nat → Option (Except String (Pool × Resolved)) :=
  if both.1.name ≠ resp.name then
    fun _ => some (.ok (pool, .logged "Recv an invalid name when dns query"))
  else resolveAnswers pool content header both.2 resp

section

variable (pool : Pool) (content : Chunk) (header : Header) (resp : Request)

theorem resolveRequest_eq (left : Int) :
    resolveRequest pool content header left resp =
      Loop.bind (unpackRecord (readQuestion content) content left)
        (requestRest pool content header resp) :=
  rfl

theorem grows_resolveAnswers (left : Int) :
    Loop.Grows (resolveAnswers pool content header left resp) :=
  Loop.grows_bind (grows_unpackAnswers _ _ _ _) fun _ => Loop.grows_const _

theorem grows_requestRest (both : Question × Int) :
    Loop.Grows (requestRest pool content header resp both) := by
  unfold requestRest
  split_ifs
  · exact Loop.grows_const _
  · exact grows_resolveAnswers pool content header resp both.2

theorem requestRest_halts_iff (question : Question) (place : Nat) :
    Loop.Halts (requestRest pool content header resp (question, (place : Nat) + 1)) ↔
      (question.name = resp.name → ∀ i < header.ancount, ∀ nth,
        NthAnswer content resp.qtype i place nth → ¬Circular content nth) := by
  unfold requestRest
  by_cases asked : question.name = resp.name
  · rw [if_neg (not_not.mpr asked), resolveAnswers, Loop.halts_bind (grows_unpackAnswers _ _ _ _) fun _ =>
      Loop.grows_const _, unpackAnswers_halts_iff]
    constructor
    · exact fun both _ => both.1
    · exact fun straight => ⟨straight asked, fun _ _ => Loop.halts_const _⟩
  · rw [if_pos asked]
    exact iff_of_true (Loop.halts_const _) fun is => absurd is asked

theorem resolveRequest_halts_iff :
    Loop.Halts (resolveRequest pool content header ((dnsHeaderLen : Nat) + 1) resp) ↔
      ¬Circular content dnsHeaderLen ∧
        ∀ labels behind question first, Name content dnsHeaderLen labels behind →
          readQuestion content (concat labels) behind = .ok (question, first) →
          question.name = resp.name → ∀ i < header.ancount, ∀ place,
            NthAnswer content resp.qtype i first place → ¬Circular content place := by
  rw [resolveRequest_eq, Loop.halts_bind (grows_unpackRecord _ _) (grows_requestRest _ _ _ _),
    unpackRecord_halts_place]
  refine and_congr_right fun straight => ?_
  constructor
  · intro rest labels behind question first name read
    refine (requestRest_halts_iff pool content header resp question first).mp (rest _ ?_)
    exact (unpackRecord_gives (readQuestion content) _ question _).mpr
      ⟨dnsHeaderLen, labels, behind, first, start_place name.inside.le, name, read, rfl⟩
  · rintro all ⟨question, left⟩ given
    obtain ⟨other, labels, behind, first, there, name, read, rfl⟩ :=
      (unpackRecord_gives (readQuestion content) _ question left).mp given
    obtain rfl := start_place_eq there
    exact (requestRest_halts_iff pool content header resp question first).mpr
      (all labels behind question first name read)

end

theorem grows_resolveRequest (pool : Pool) (content : Chunk) (header : Header) (left : Int)
    (resp : Request) : Loop.Grows (resolveRequest pool content header left resp) := by
  rw [resolveRequest_eq]
  exact Loop.grows_bind (grows_unpackRecord _ _) (grows_requestRest _ _ _ _)

def headerRest (pool : Pool) (content : Chunk) (both : Header × Int) :
    Nat → Option (Except String (Pool × Resolved)) :=
  if both.1.qdcount ≠ 1 then fun _ => some (.error "malformed packet")
  else
    match pool (Int64.ofNat both.1.tid) with
    | none => fun _ => some (.ok (pool, .logged "Recv an invalid tid when dns query"))
    | some resp => resolveRequest pool content both.1 both.2 resp

theorem resolve_long (pool : Pool) {content : Chunk} (long : dnsHeaderLen ≤ content.length) :
    resolve pool content =
      Loop.bind (fun _ => some (unpackHeader content)) (headerRest pool content) :=
  if_neg (Nat.not_lt.mpr long)

theorem grows_headerRest (pool : Pool) (content : Chunk) (both : Header × Int) :
    Loop.Grows (headerRest pool content both) := by
  unfold headerRest
  split_ifs
  · exact Loop.grows_const _
  · cases pool (Int64.ofNat both.1.tid) with
    | none => exact Loop.grows_const _
    | some resp => exact grows_resolveRequest _ _ _ _ _

theorem resolve_halts_iff (pool : Pool) (content : Chunk) :
    Loop.Halts (resolve pool content) ↔
      ∀ place, NamePlace pool content place → ¬Circular content place := by
  by_cases long : dnsHeaderLen ≤ content.length
  · rw [resolve_long pool long, Loop.halts_bind (Loop.grows_const _) (grows_headerRest _ _),
      and_iff_right (Loop.halts_const _)]
    constructor
    · intro halts place name
      cases name with
      | question header left resp _ read one waits =>
        have handled := halts _ (Loop.gives_const.mpr read)
        obtain rfl := unpackHeader_left read
        simp only [headerRest, one, ne_eq, not_true_eq_false, if_false, waits] at handled
        exact ((resolveRequest_halts_iff pool content header resp).mp handled).1
      | answer header left resp _ read one waits labels behind first i _ question name rest asked
          counted nth =>
        have handled := halts _ (Loop.gives_const.mpr read)
        obtain rfl := unpackHeader_left read
        simp only [headerRest, one, ne_eq, not_true_eq_false, if_false, waits] at handled
        exact ((resolveRequest_halts_iff pool content header resp).mp handled).2 labels behind question
          first name rest asked i counted place nth
    · rintro straight ⟨header, left⟩ given
      have read := Loop.gives_const.mp given
      obtain rfl := unpackHeader_left read
      unfold headerRest
      by_cases one : header.qdcount = 1
      · rw [if_neg (not_not.mpr one)]
        cases waits : pool (Int64.ofNat header.tid) with
        | none => exact Loop.halts_const _
        | some resp =>
          refine (resolveRequest_halts_iff pool content header resp).mpr ⟨?_, ?_⟩
          · exact straight _ (.question header _ resp long read one waits)
          · intro labels behind question first name rest asked i counted place nth
            exact straight _ (.answer header _ resp long read one waits labels behind first i place
              question name rest asked counted nth)
      · rw [if_pos one]
        exact Loop.halts_const _
  · refine iff_of_true ?_ ?_
    · rw [resolve, if_pos (Nat.not_le.mp long)]
      exact Loop.halts_const _
    · intro place name
      cases name with
      | question _ _ _ inside => exact absurd inside long
      | answer _ _ _ inside => exact absurd inside long

theorem names_terminate_iff (chunk : Chunk) (left : Int) (pool : Pool) :
    (Loop.Halts (unpackName chunk left) ↔
      ∀ place, start chunk left = .ok place → ¬Circular chunk place) ∧
    (Loop.Halts (resolve pool chunk) ↔
      ∀ place, NamePlace pool chunk place → ¬Circular chunk place) :=
  ⟨unpackName_halts_iff left, resolve_halts_iff pool chunk⟩

def oneQuestion (tid : UInt8) : Chunk := [0, tid, 0, 0, 0, 1, 0, 0, 0, 0, 0, 0]

theorem pointer_to_itself :
    ¬Loop.Halts (unpackName (oneQuestion 1 ++ [0xc0, 12]) 13) ∧
      ¬Loop.Halts (resolve (fun _ => some ⟨[97], qtypeA, 0, none⟩) (oneQuestion 1 ++ [0xc0, 12])) := by
  have circular : Circular (oneQuestion 1 ++ [0xc0, 12]) dnsHeaderLen :=
    ⟨12, 12, .refl, by decide, .refl⟩
  constructor
  · intro halts
    exact (unpackName_halts_iff 13).mp halts 12 (by decide) circular
  · intro halts
    refine (resolve_halts_iff _ _).mp halts _ ?_ circular
    exact .question ⟨1, 0, 1, 0, 0, 0⟩ 13 ⟨[97], qtypeA, 0, none⟩ (by decide) (by decide) rfl rfl

end Pskynet.Dns
