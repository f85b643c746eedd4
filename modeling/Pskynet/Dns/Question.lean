import Pskynet.Dns.Resolve
import Pskynet.Shared.Bytes

set_option autoImplicit false

namespace Pskynet.Dns

open LittleEndian

def maxDomainLen : Nat := 1024

def maxLabelLen : Nat := 63

def isNameByte (c : UInt8) : Bool :=
  (97 ≤ c ∧ c ≤ 122) ∨ (48 ≤ c ∧ c ≤ 57) ∨ c = 45 ∨ c = 46

def isLabelByte (c : UInt8) : Bool :=
  (48 ≤ c ∧ c ≤ 57) ∨ (65 ≤ c ∧ c ≤ 90) ∨ (97 ≤ c ∧ c ≤ 122) ∨ c = 45

-- `name:gmatch("([%w-]+)%.?")` behind a run that is being read. A dot that a match takes is no
-- part of another one.
def gmatchLabels : List UInt8 → List UInt8 → List (List UInt8)
  | run, [] => if run = [] then [] else [run]
  | run, c :: rest =>
    if isLabelByte c then gmatchLabels (run ++ [c]) rest
    else if run = [] then gmatchLabels [] rest
    else run :: gmatchLabels [] rest

def verifyDomainName (name : List UInt8) : Bool :=
  if name.length > maxDomainLen then false
  else if ¬(name ≠ [] ∧ name.all isNameByte) then false
  else (gmatchLabels [] name).all fun w => w.length ≤ maxLabelLen

-- A `size` byte unsigned number of `string.pack`, with the highest byte first
def packInt (size : Nat) (n : Int) : Except String (List UInt8) :=
  if 0 ≤ n ∧ n < 256 ^ size then .ok (bytes size n.toNat).reverse else .error "unsigned overflow"

def packString (w : List UInt8) : Except String (List UInt8) :=
  if w.length < 256 then .ok (UInt8.ofNat w.length :: w)
  else .error "string length does not fit in given size"

def qclassIN : Int := 1

def packQuestion (name : List UInt8) (qtype qclass : Int) : Except String (List UInt8) :=
  (gmatchLabels [] name).mapM packString >>= fun labels =>
    packInt 2 qtype >>= fun atype =>
      (packInt 2 qclass).map fun qclass => labels.flatten ++ [0] ++ (atype ++ qclass)

-- The name, type and class are read back from what is packed, and in a datagram that repeats it
-- `resolve` goes on to the answers for a request that waits for the name.
def Recognised (name : List UInt8) : Prop :=
  ∀ qtype qclass packed, packQuestion name qtype qclass = .ok packed →
    (∃ question next, Loop.Gives (unpackQuestion packed 1) (.ok (question, next)) ∧
      question.name = name ∧ (question.atype : Int) = qtype ∧ (question.qclass : Int) = qclass) ∧
    ∀ (pool : Pool) content rest header left resp, content.drop dnsHeaderLen = packed ++ rest →
      unpackHeader content = .ok (header, left) → header.qdcount = 1 →
      pool (Int64.ofNat header.tid) = some resp → resp.name = name →
      ∀ result, Loop.Gives (resolve pool content) result ↔
        Loop.Gives (resolveAnswers pool content header ((dnsHeaderLen + packed.length : Nat) + 1) resp)
          result

section

variable {name : List UInt8}

theorem isLabelByte_iff {c : UInt8} (accepted : isNameByte c = true) :
    isLabelByte c = true ↔ c ≠ 46 := by
  revert accepted
  exact Bytes.forall_byte (fun c => isNameByte c = true → (isLabelByte c = true ↔ c ≠ 46))
    (by decide +kernel) c

theorem gmatchLabels_filled {run name w : List UInt8} (read : ∀ c ∈ run, isLabelByte c = true)
    (inside : w ∈ gmatchLabels run name) : w ≠ [] ∧ ∀ c ∈ w, isLabelByte c = true := by
  induction name generalizing run with
  | nil =>
    unfold gmatchLabels at inside
    split_ifs at inside with none
    · cases inside
    · obtain rfl := List.mem_singleton.mp inside
      exact ⟨none, read⟩
  | cons c rest ih =>
    unfold gmatchLabels at inside
    split_ifs at inside with label none
    · refine ih (fun d member => ?_) inside
      rcases List.mem_append.mp member with before | last
      · exact read d before
      · exact List.mem_singleton.mp last ▸ label
    · exact ih (List.forall_mem_nil _) inside
    · rcases List.mem_cons.mp inside with rfl | later
      · exact ⟨none, read⟩
      · exact ih (List.forall_mem_nil _) later

theorem gmatchLabels_splitOn (run name : List UInt8) (accepted : ∀ c ∈ name, isNameByte c = true) :
    gmatchLabels run name =
      (name.splitOnPPrepend (· == 46) run.reverse).filter fun w => decide (w ≠ []) := by
  induction name generalizing run with
  | nil =>
    rw [List.splitOnPPrepend_nil, List.reverse_reverse]
    by_cases none : run = []
    · simp [gmatchLabels, none]
    · simp [gmatchLabels, none]
  | cons c rest ih =>
    rw [List.forall_mem_cons] at accepted
    have later := fun run => ih run accepted.2
    by_cases dot : c = 46
    · have no : isLabelByte c = false := by
        rw [dot]
        decide
      rw [List.splitOnPPrepend_cons_pos (by simpa using dot), List.reverse_reverse]
      by_cases none : run = []
      · simp [gmatchLabels, no, none, later]
      · simp [gmatchLabels, no, none, later]
    · have yes := (isLabelByte_iff accepted.1).mpr dot
      rw [List.splitOnPPrepend_cons_neg (by simpa using dot)]
      simp [gmatchLabels, yes, later]

theorem gmatchLabels_accepted (accepted : ∀ c ∈ name, isNameByte c = true) :
    gmatchLabels [] name = (name.splitOn 46).filter fun w => decide (w ≠ []) :=
  gmatchLabels_splitOn [] name accepted

theorem concat_gmatchLabels_iff (accepted : ∀ c ∈ name, isNameByte c = true) (filled : name ≠ []) :
    concat (gmatchLabels [] name) = name ↔ [] ∉ name.splitOn 46 := by
  constructor
  · intro same empty
    have some : gmatchLabels [] name ≠ [] := by
      intro none
      rw [none] at same
      exact filled same.symm
    have apart : ∀ w ∈ gmatchLabels [] name, 46 ∉ w := by
      intro w inside dot
      exact absurd ((gmatchLabels_filled (List.forall_mem_nil _) inside).2 46 dot) (by decide)
    have split := List.splitOn_intercalate 46 apart some
    change (concat _).splitOn 46 = _ at split
    rw [same] at split
    exact (gmatchLabels_filled (List.forall_mem_nil _) (split ▸ empty)).1 rfl
  · intro full
    rw [gmatchLabels_accepted accepted]
    have all : (name.splitOn 46).filter (fun w => decide (w ≠ [])) = name.splitOn 46 := by
      rw [List.filter_eq_self]
      exact fun w inside => decide_eq_true fun is => full (is ▸ inside)
    rw [all]
    exact List.intercalate_splitOn 46

theorem verifyDomainName_iff :
    verifyDomainName name = true ↔ name.length ≤ maxDomainLen ∧ name ≠ [] ∧
      (∀ c ∈ name, isNameByte c = true) ∧ ∀ w ∈ gmatchLabels [] name, w.length ≤ maxLabelLen := by
  unfold verifyDomainName
  split_ifs with long bytes
  · simp [long]
  · rw [List.all_eq_true] at bytes
    simp only [List.all_eq_true, decide_eq_true_iff]
    exact ⟨fun all => ⟨Nat.not_lt.mp long, bytes.1, bytes.2, all⟩, fun all => all.2.2.2⟩
  · rw [List.all_eq_true] at bytes
    exact iff_of_false id fun all => bytes ⟨all.2.1, all.2.2.1⟩

def wire (labels : List (List UInt8)) : List UInt8 :=
  (labels.map fun w => UInt8.ofNat w.length :: w).flatten

theorem packInt_ok {size : Nat} {n : Int} {packed : List UInt8} (is : packInt size n = .ok packed) :
    ∃ m : Nat, n = m ∧ m < 256 ^ size ∧ packed = (bytes size m).reverse := by
  unfold packInt at is
  split_ifs at is with fits
  obtain ⟨m, rfl⟩ := Int.eq_ofNat_of_zero_le fits.1
  refine ⟨m, rfl, by exact_mod_cast fits.2, ?_⟩
  exact (Except.ok.inj is).symm

theorem unpackInt_packed {chunk : Chunk} {place size m : Nat} {rest : List UInt8}
    (here : chunk.drop place = (bytes size m).reverse ++ rest) (positive : size ≠ 0)
    (fits : m < 256 ^ size) : unpackInt chunk size place = .ok (m, place + size) := by
  have filled : (bytes size m).reverse ≠ [] := by
    intro none
    have length := congrArg List.length none
    rw [List.length_reverse, length_bytes] at length
    exact positive length
  rw [unpackInt_drop size _ here filled (by rw [List.length_reverse, length_bytes]),
    List.reverse_reverse, value_bytes_of_lt size m fits]

theorem mapM_packString {labels : List (List UInt8)} (short : ∀ w ∈ labels, w.length ≤ maxLabelLen) :
    labels.mapM packString = .ok (labels.map fun w => UInt8.ofNat w.length :: w) := by
  induction labels with
  | nil => rfl
  | cons w labels ih =>
    rw [List.forall_mem_cons, maxLabelLen] at short
    rw [List.mapM_cons, ih short.2, packString, if_pos (by omega)]
    rfl

theorem name_wire {chunk : Chunk} {place : Nat} {labels : List (List UInt8)} {rest : List UInt8}
    (here : chunk.drop place = wire labels ++ 0 :: rest)
    (fits : ∀ w ∈ labels, w ≠ [] ∧ w.length ≤ maxLabelLen) :
    Name chunk place labels (place + (wire labels).length + 1) := by
  induction labels generalizing place with
  | nil =>
    refine .root place ?_
    rw [partAt, here]
    rfl
  | cons w labels ih =>
    rw [List.forall_mem_cons] at fits
    have positive := List.length_pos_iff.mpr fits.1.1
    have short := fits.1.2
    rw [maxLabelLen] at short
    have tag : (UInt8.ofNat w.length).toNat = w.length := by
      rw [UInt8.toNat_ofNat']
      omega
    have plain : ∀ n < 64, ¬n &&& 0xc0 = 0xc0 := by decide
    have split : wire (w :: labels) = UInt8.ofNat w.length :: w ++ wire labels := rfl
    rw [split, List.append_assoc, List.cons_append] at here
    have part : partAt chunk place = some (.label w) := by
      rw [partAt, here]
      have root : UInt8.ofNat w.length ≠ 0 := by
        intro zero
        rw [zero] at tag
        exact positive.ne tag
      simp only [tag, plain w.length (by omega), if_false, root]
      rw [if_neg (by rw [List.length_append]; omega), List.take_left]
    have rest : chunk.drop (place + 1 + w.length) = wire labels ++ 0 :: rest := by
      rw [← List.drop_drop, ← List.drop_drop, here, List.drop_one, List.tail_cons, List.drop_left]
    have later := ih rest fits.2
    have length : (wire (w :: labels)).length = 1 + w.length + (wire labels).length := by
      rw [split, List.length_append, List.length_cons, Nat.add_comm 1]
    have behind : place + (wire (w :: labels)).length + 1 =
        place + 1 + w.length + (wire labels).length + 1 := by omega
    rw [behind]
    exact .label place w labels _ part later

theorem question_packed {qtype qclass : Int} {packed rest : List UInt8} {chunk : Chunk} {place : Nat}
    (verified : verifyDomainName name = true) (is : packQuestion name qtype qclass = .ok packed)
    (here : chunk.drop place = packed ++ rest) :
    ∃ behind question, Name chunk place (gmatchLabels [] name) behind ∧
      readQuestion chunk (concat (gmatchLabels [] name)) behind =
        .ok (question, place + packed.length) ∧
      question.name = concat (gmatchLabels [] name) ∧ (question.atype : Int) = qtype ∧
      (question.qclass : Int) = qclass := by
  obtain ⟨-, -, -, short⟩ := verifyDomainName_iff.mp verified
  rw [packQuestion, mapM_packString short] at is
  obtain ⟨labels, same, is⟩ := Outcome.bind_ok.mp is
  obtain rfl := Except.ok.inj same
  obtain ⟨atype, first, is⟩ := Outcome.bind_ok.mp is
  obtain ⟨class_, second, rfl⟩ := Outcome.map_ok.mp is
  obtain ⟨t, rfl, fitsT, rfl⟩ := packInt_ok first
  obtain ⟨c, rfl, fitsC, rfl⟩ := packInt_ok second
  change chunk.drop place = wire (gmatchLabels [] name) ++ [0] ++ _ ++ rest at here
  simp only [List.append_assoc, List.cons_append, List.nil_append] at here
  have named := name_wire here fun w inside => ⟨(gmatchLabels_filled (List.forall_mem_nil _) inside).1, short w inside⟩
  have tail : chunk.drop (place + (wire (gmatchLabels [] name)).length + 1) =
      (bytes 2 t).reverse ++ ((bytes 2 c).reverse ++ rest) := by
    rw [← List.drop_drop, ← List.drop_drop, here, List.drop_left, List.drop_one, List.tail_cons]
  have last : chunk.drop (place + (wire (gmatchLabels [] name)).length + 1 + 2) =
      (bytes 2 c).reverse ++ rest := by
    rw [← List.drop_drop, tail]
    exact List.drop_left' (by rw [List.length_reverse, length_bytes])
  refine ⟨_, ⟨_, t, c⟩, named, ?_, rfl, rfl, rfl⟩
  rw [readQuestion, unpackInt_packed tail (by decide) fitsT]
  change (unpackInt chunk 2 _).map _ = _
  rw [unpackInt_packed last (by decide) fitsC]
  have length : (wire (gmatchLabels [] name) ++ [0] ++ ((bytes 2 t).reverse ++ (bytes 2 c).reverse)).length =
      (wire (gmatchLabels [] name)).length + 1 + 2 + 2 := by
    simp only [List.length_append, List.length_singleton, List.length_reverse, length_bytes]
  change Except.ok _ = Except.ok (_, place + (wire (gmatchLabels [] name) ++ [0] ++ _).length)
  rw [length]
  congr 2

theorem unpackQuestion_packed {qtype qclass : Int} {packed : List UInt8}
    (verified : verifyDomainName name = true) (is : packQuestion name qtype qclass = .ok packed) :
    ∃ question next, Loop.Gives (unpackQuestion packed 1) (.ok (question, next)) ∧
      question.name = concat (gmatchLabels [] name) ∧ (question.atype : Int) = qtype ∧
      (question.qclass : Int) = qclass := by
  have here : packed.drop 0 = packed ++ [] := by rw [List.append_nil, List.drop_zero]
  obtain ⟨behind, question, named, read, same⟩ := question_packed verified is here
  have given := (unpackRecord_gives (readQuestion packed) ((0 : Nat) + 1) question _).mpr
    ⟨0, _, behind, _, start_place (Nat.zero_le _), named, read, rfl⟩
  exact ⟨question, _, given, same⟩

theorem packInt_fits {size : Nat} {n : Int} (low : 0 ≤ n) (high : n < 256 ^ size) :
    packInt size n = .ok (bytes size n.toNat).reverse := if_pos ⟨low, high⟩

theorem packQuestion_accepted (verified : verifyDomainName name = true) (qtype : Nat)
    (fits : qtype < 65536) : ∃ packed, packQuestion name qtype qclassIN = .ok packed := by
  obtain ⟨-, -, -, short⟩ := verifyDomainName_iff.mp verified
  refine ⟨wire (gmatchLabels [] name) ++ [0] ++ ((bytes 2 qtype).reverse ++ [0, 1]), ?_⟩
  rw [packQuestion, mapM_packString short, packInt_fits (Int.natCast_nonneg qtype) (by omega)]
  rfl

theorem labels_of_recognised (verified : verifyDomainName name = true)
    (recognised : Recognised name) : [] ∉ name.splitOn 46 := by
  obtain ⟨-, filled, accepted, -⟩ := verifyDomainName_iff.mp verified
  obtain ⟨packed, is⟩ := packQuestion_accepted verified qtypeA (by decide)
  obtain ⟨⟨question, next, given, same, -⟩, -⟩ := recognised _ _ packed is
  obtain ⟨other, later, read, joined, -⟩ := unpackQuestion_packed verified is
  have unique := Loop.Gives.unique (grows_unpackRecord (readQuestion packed) 1) given read
  obtain ⟨rfl, -⟩ := Prod.mk.inj (Except.ok.inj unique)
  exact (concat_gmatchLabels_iff accepted filled).mp (joined.symm.trans same)

theorem resolve_question {pool : Pool} {content : Chunk} {header : Header} {left : Int}
    {resp : Request} (read : unpackHeader content = .ok (header, left)) (one : header.qdcount = 1)
    (waits : pool (Int64.ofNat header.tid) = some resp) {labels : List (List UInt8)}
    {behind after : Nat} {question : Question} (named : Name content dnsHeaderLen labels behind)
    (rest : readQuestion content (concat labels) behind = .ok (question, after))
    (result : Except String (Pool × Resolved)) :
    Loop.Gives (resolve pool content) result ↔
      Loop.Gives (requestRest pool content header resp (question, (after : Nat) + 1)) result := by
  obtain rfl := unpackHeader_left read
  rw [resolve_long pool named.inside.le, Loop.gives_bind_of_ok (Loop.grows_const _)
    (grows_headerRest pool content) (Loop.gives_const.mpr read)]
  have given := (unpackRecord_gives (readQuestion content) ((dnsHeaderLen : Nat) + 1) question _).mpr
    ⟨dnsHeaderLen, labels, behind, after, start_place named.inside.le, named, rest, rfl⟩
  simp only [headerRest, one, ne_eq, not_true_eq_false, if_false, waits]
  rw [resolveRequest_eq, Loop.gives_bind_of_ok (grows_unpackRecord _ _)
    (grows_requestRest pool content header resp) given]

theorem repeated_question_dropped (verified : verifyDomainName name = true)
    (empty : [] ∈ name.splitOn 46) {qtype qclass : Int} {packed : List UInt8}
    (is : packQuestion name qtype qclass = .ok packed) {pool : Pool} {content rest : Chunk}
    {header : Header} {left : Int} {resp : Request}
    (here : content.drop dnsHeaderLen = packed ++ rest)
    (read : unpackHeader content = .ok (header, left)) (one : header.qdcount = 1)
    (waits : pool (Int64.ofNat header.tid) = some resp) (asked : resp.name = name) :
    Loop.Gives (resolve pool content)
      (.ok (pool, .logged "Recv an invalid name when dns query")) := by
  obtain ⟨-, filled, accepted, -⟩ := verifyDomainName_iff.mp verified
  have lost := (concat_gmatchLabels_iff accepted filled).not.mpr (not_not.mpr empty)
  obtain ⟨behind, question, named, packed, same, -⟩ := question_packed verified is here
  refine (resolve_question read one waits named packed _).mpr ?_
  have other : question.name ≠ resp.name := by
    rw [same, asked]
    exact lost
  rw [requestRest, if_pos other]
  exact Loop.gives_const.mpr rfl

theorem recognised_of_labels (verified : verifyDomainName name = true)
    (full : [] ∉ name.splitOn 46) : Recognised name := by
  obtain ⟨-, filled, accepted, -⟩ := verifyDomainName_iff.mp verified
  have joined := (concat_gmatchLabels_iff accepted filled).mpr full
  intro qtype qclass packed is
  constructor
  · obtain ⟨question, next, given, same, types⟩ := unpackQuestion_packed verified is
    exact ⟨question, next, given, same.trans joined, types⟩
  · intro pool content rest header left resp here read one waits asked
    obtain ⟨behind, question, named, packed, same, -⟩ := question_packed verified is here
    intro result
    rw [resolve_question read one waits named packed, requestRest,
      if_neg (not_not.mpr ((same.trans joined).trans asked.symm))]

theorem recognised_iff (name : List UInt8) :
    (verifyDomainName name = true → Recognised name) ↔
      (verifyDomainName name = true → [] ∉ name.splitOn 46) := by
  refine forall_congr' fun verified => ?_
  exact ⟨labels_of_recognised verified, recognised_of_labels verified⟩

end

theorem last_dot_lost : verifyDomainName [97, 46] = true ∧ ¬Recognised [97, 46] := by
  have verified : verifyDomainName [97, 46] = true := by decide
  refine ⟨verified, fun recognised => labels_of_recognised verified recognised ?_⟩
  have split : List.splitOn 46 [(97 : UInt8), 46] = [[97], []] := by
    simp [List.splitOn_cons_eq_if_modifyHead]
  rw [split]
  exact List.mem_cons_of_mem _ List.mem_cons_self

end Pskynet.Dns
