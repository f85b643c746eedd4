import Pskynet.Shared.Transition
import Pskynet.Shared.Words
import Pskynet.Stm.Object

set_option autoImplicit false

namespace Pskynet.Stm

def Reader.refers (version : Nat) : Reader → Prop
  | .live lastcopy => lastcopy = some version
  | .reading lastcopy copy => lastcopy = some version ∨ copy = some version
  | .leaving lastcopy => lastcopy = some version
  | .gone => False

def Reader.keeps : Reader → Bool
  | .live _ => true
  | .reading _ _ => true
  | .leaving _ => false
  | .gone => false

-- A version is freed exactly when nothing refers to it; the object, when its writer, its readers
-- and those who may still become readers are gone.
structure Exact (s : State) : Prop where
  untouched : s.touched = false
  version : ∀ id copy, s.copies[id]? = some copy →
    (copy.freed = true ↔ s.object.copy ≠ some id ∧ ∀ reader ∈ s.readers, ¬reader.refers id)
  object : s.object.freed = true ↔
    s.writer = false ∧ s.tokens = 0 ∧ ∀ reader ∈ s.readers, reader.keeps = false

def FindsNone (s : State) (action : Action) : Prop :=
  ∀ r, action = .fetch r → s.object.copy = none

def Reader.vacant : Reader → Prop
  | .live lastcopy => lastcopy = none
  | .reading lastcopy copy => lastcopy = none ∧ copy = none
  | .leaving lastcopy => lastcopy = none
  | .gone => True

theorem Reader.vacant.refers {reader : Reader} (vacant : reader.vacant) (id : Nat) :
    ¬reader.refers id := by
  cases reader with
  | live lastcopy =>
    intro refers
    cases vacant.symm.trans refers
  | reading lastcopy copy =>
    intro refers
    rcases refers with refers | refers
    · cases vacant.1.symm.trans refers
    · cases vacant.2.symm.trans refers
  | leaving lastcopy =>
    intro refers
    cases vacant.symm.trans refers
  | gone => exact not_false

def State.holders (s : State) : Nat :=
  s.writer.toNat + s.tokens + s.readers.countP Reader.keeps

structure Held (s : State) : Prop where
  untouched : s.touched = false
  readers : ∀ reader ∈ s.readers, reader.vacant
  writer : s.object.copy = none ↔ s.writer = false
  current : ∀ id, s.object.copy = some id → ∃ copy, s.copies[id]? = some copy ∧
    copy.reference = 1 ∧ copy.freed = false
  older : ∀ id copy, s.copies[id]? = some copy → s.object.copy ≠ some id → copy.freed = true
  count : s.object.reference = Int32.ofNat s.holders
  bound : s.holders ≤ 2 ^ 31
  freed : s.object.freed = true ↔ s.holders = 0

theorem Held.exact {s : State} (held : Held s) : Exact s := by
  refine ⟨held.untouched, ?_, ?_⟩
  · intro id copy here
    constructor
    · intro freed
      refine ⟨?_, fun reader inside => (held.readers reader inside).refers id⟩
      intro current
      obtain ⟨other, there, _, kept⟩ := held.current id current
      rw [here, Option.some.injEq] at there
      rw [there, kept] at freed
      contradiction
    · intro unreferred
      exact held.older id copy here unreferred.1
  · rw [held.freed]
    unfold State.holders
    constructor
    · intro zero
      have idle : s.readers.countP Reader.keeps = 0 := by omega
      refine ⟨?_, by omega, ?_⟩
      · cases writer : s.writer with
        | false => rfl
        | true =>
          rw [writer, Bool.toNat_true] at zero
          omega
      · intro reader inside
        exact Bool.eq_false_iff.mpr (List.countP_eq_zero.mp idle reader inside)
    · rintro ⟨writer, tokens, readers⟩
      have idle : s.readers.countP Reader.keeps = 0 :=
        List.countP_eq_zero.mpr fun reader inside => Bool.eq_false_iff.mp (readers reader inside)
      simp [writer, tokens, idle]

theorem holders_setReader {s : State} {r : Nat} {old : Reader} (new : Reader)
    (here : s.readers[r]? = some old) :
    (s.setReader r new).holders + old.keeps.toNat = s.holders + new.keeps.toNat := by
  obtain ⟨inside, is⟩ := List.getElem?_eq_some_iff.mp here
  have counted : old.keeps.toNat ≤ s.readers.countP Reader.keeps := by
    cases keeps : old.keeps with
    | false => exact Nat.zero_le _
    | true =>
      exact List.countP_pos_iff.mpr ⟨old, List.mem_of_getElem? here, keeps⟩
  unfold State.holders State.setReader
  rw [List.countP_set inside, is]
  cases before : old.keeps <;> cases after : new.keeps <;>
    simp only [before, Bool.toNat_true, Bool.toNat_false] at counted ⊢ <;> simp <;> omega

theorem Held.unfreed {s : State} (held : Held s) (pos : 0 < s.holders) :
    s.object.freed = false := by
  rw [Bool.eq_false_iff]
  intro freed
  have zero := held.freed.mp freed
  omega

theorem holders_of_writer {s : State} (writer : s.writer = true) : 0 < s.holders := by
  unfold State.holders
  rw [writer, Bool.toNat_true]
  omega

theorem holders_of_keeps {s : State} {r : Nat} {reader : Reader}
    (here : s.readers[r]? = some reader) (keeps : reader.keeps = true) : 0 < s.holders := by
  have pos : 0 < s.readers.countP Reader.keeps :=
    List.countP_pos_iff.mpr ⟨reader, List.mem_of_getElem? here, keeps⟩
  unfold State.holders
  omega

theorem Held.setReader {s : State} (held : Held s) {r : Nat} {old new : Reader}
    (here : s.readers[r]? = some old) (vacant : new.vacant) (keeps : new.keeps = old.keeps) :
    Held (s.setReader r new) := by
  have same : (s.setReader r new).holders = s.holders := by
    have moved := holders_setReader new here
    rw [keeps] at moved
    omega
  refine ⟨held.untouched, ?_, held.writer, held.current, held.older, ?_, ?_, ?_⟩
  · intro reader inside
    rcases List.mem_or_eq_of_mem_set inside with before | is
    · exact held.readers reader before
    · exact is ▸ vacant
  · rw [same]
    exact held.count
  · rw [same]
    exact held.bound
  · rw [same]
    exact held.freed

theorem Held.released {s : State} (held : Held s) {id : Nat} (current : s.object.copy = some id) :
    ∃ copy : StmCopy, copy.freed = true ∧ id < s.copies.length ∧
      s.stmReleasecopy (some id) = { s with copies := s.copies.set id copy } := by
  obtain ⟨copy, here, reference, kept⟩ := held.current id current
  refine ⟨copy.release, ?_, (List.getElem?_eq_some_iff.mp here).1, ?_⟩
  · unfold StmCopy.release
    rw [reference]
    rfl
  · simp [State.stmReleasecopy, here, kept]

theorem stmNew_held (msg : List UInt8) : Held (stmNew msg) := by
  refine ⟨rfl, ?_, ?_, ?_, ?_, rfl, ?_, ?_⟩
  · intro reader inside
    cases inside
  · simp [stmNew]
  · intro id current
    have zero : 0 = id := Option.some.inj current
    exact ⟨stmNewcopy msg, zero ▸ rfl, rfl, rfl⟩
  · intro id copy here other
    cases id with
    | zero => exact absurd rfl other
    | succ id => simp [stmNew] at here
  · simp [State.holders, stmNew]
  · simp [State.holders, stmNew]

theorem stmUpdate_current {s : State} {id : Nat} {old : StmCopy} (msg : List UInt8)
    (unfreed : s.object.freed = false) (current : s.object.copy = some id)
    (here : s.copies[id]? = some old) (kept : old.freed = false) :
    s.stmUpdate msg =
      { s with
        copies := (s.copies ++ [stmNewcopy msg]).set id old.release
        object := { s.object with copy := some s.copies.length } } := by
  have inside := (List.getElem?_eq_some_iff.mp here).1
  have there : (s.copies ++ [stmNewcopy msg])[id]? = some old := by
    rw [List.getElem?_append_left inside, here]
  simp [State.stmUpdate, unfreed, current, State.stmReleasecopy, there, kept]

theorem Held.update {s : State} (held : Held s) (msg : List UInt8) (writer : s.writer = true) :
    Held (s.stmUpdate msg) := by
  have unfreed := held.unfreed (holders_of_writer writer)
  have present : s.object.copy ≠ none := by
    rw [ne_eq, held.writer, writer]
    exact Bool.noConfusion
  obtain ⟨id, current⟩ := Option.ne_none_iff_exists'.mp present
  obtain ⟨old, here, reference, kept⟩ := held.current id current
  have inside := (List.getElem?_eq_some_iff.mp here).1
  have there : (s.copies ++ [stmNewcopy msg])[id]? = some old := by
    rw [List.getElem?_append_left inside, here]
  have apart : id ≠ s.copies.length := Nat.ne_of_lt inside
  rw [stmUpdate_current msg unfreed current here kept]
  refine ⟨held.untouched, held.readers, ?_, ?_, ?_, held.count, held.bound, held.freed⟩
  · simp [writer]
  · intro other is
    have last : s.copies.length = other := Option.some.inj is
    refine ⟨stmNewcopy msg, ?_, rfl, rfl⟩
    rw [← last, List.getElem?_set_ne apart, List.getElem?_concat_length]
  · intro other copy found elsewhere
    by_cases same : id = other
    · subst same
      rw [List.getElem?_set_self (List.getElem?_eq_some_iff.mp there).1, Option.some.injEq] at found
      rw [← found, StmCopy.release, reference]
      rfl
    · rw [List.getElem?_set_ne same] at found
      by_cases before : other < s.copies.length
      · rw [List.getElem?_append_left before] at found
        exact held.older other copy found fun is => same (Option.some.inj (current.symm.trans is))
      · have bound := (List.getElem?_eq_some_iff.mp found).1
        rw [List.length_append, List.length_singleton] at bound
        exact absurd (congrArg some (by omega : s.copies.length = other)) elsewhere

theorem Held.grab {s t : State} (held : Held s) (writer : s.writer = true)
    (grabbed : s.stmGrab = some t) : Held { t with tokens := t.tokens + 1 } := by
  have unfreed := held.unfreed (holders_of_writer writer)
  simp only [State.stmGrab, unfreed, Bool.false_eq_true, if_false] at grabbed
  split_ifs at grabbed with pos
  rw [Option.some.injEq] at grabbed
  subst grabbed
  rw [held.count] at pos
  have room := Words.counter_lt _ held.bound pos
  have more : s.writer.toNat + (s.tokens + 1) + s.readers.countP Reader.keeps = s.holders + 1 := by
    unfold State.holders
    omega
  have count : s.object.reference + 1 = Int32.ofNat (s.holders + 1) := by
    rw [held.count, Words.counter_succ]
  refine ⟨held.untouched, held.readers, held.writer, held.current, held.older, ?_, ?_, ?_⟩
  · exact count.trans (congrArg Int32.ofNat more.symm)
  · exact more.le.trans room
  · exact (iff_of_false Bool.noConfusion (Nat.succ_ne_zero _)).trans (Eq.congr_left more).symm

theorem Held.deletewriter {s t : State} (held : Held s) (writer : s.writer = true)
    (released : s.stmRelease = some t) : Held { t with writer := false } := by
  have unfreed := held.unfreed (holders_of_writer writer)
  have present : s.object.copy ≠ none := by
    rw [ne_eq, held.writer, writer]
    exact Bool.noConfusion
  obtain ⟨id, current⟩ := Option.ne_none_iff_exists'.mp present
  obtain ⟨freed, gone, inside, after⟩ := held.released current
  obtain ⟨n, holders⟩ : ∃ n, s.holders = n + 1 :=
    Nat.exists_eq_succ_of_ne_zero (holders_of_writer writer).ne'
  have small : n < 2 ^ 31 := by
    have bound := held.bound
    omega
  have fewer : s.tokens + s.readers.countP Reader.keeps = n := by
    unfold State.holders at holders
    rw [writer, Bool.toNat_true] at holders
    omega
  simp only [State.stmRelease, unfreed, current, Bool.false_eq_true, if_false, after,
    reduceCtorEq, Option.some.injEq] at released
  subst released
  have count : s.object.reference - 1 = Int32.ofNat n := by
    rw [held.count, holders, Words.counter_pred]
  refine ⟨held.untouched, held.readers, by simp, by simp, ?_, ?_, ?_, ?_⟩
  · intro other copy found _
    by_cases same : id = other
    · subst same
      simp only [List.getElem?_set_self inside, Option.some.injEq] at found
      exact found ▸ gone
    · rw [List.getElem?_set_ne same] at found
      exact held.older other copy found fun is => same (Option.some.inj (current.symm.trans is))
  · simp [State.holders, fewer, count]
  · simp only [State.holders, Bool.toNat_false, Nat.zero_add, fewer]
    omega
  · simp only [State.holders, Bool.toNat_false, Nat.zero_add, fewer, count,
      Words.counter_pos_iff n small]
    simp

theorem Held.newcopy {s : State} (held : Held s) (pending : 0 < s.tokens) :
    Held { s with tokens := s.tokens - 1, readers := s.readers ++ [.live none] } := by
  have same : State.holders { s with
      tokens := s.tokens - 1
      readers := s.readers ++ [.live none] } = s.holders := by
    have one : [Reader.live none].countP Reader.keeps = 1 := rfl
    simp only [State.holders, List.countP_append, one]
    omega
  refine ⟨held.untouched, ?_, held.writer, held.current, held.older, ?_, ?_, ?_⟩
  · intro reader inside
    rcases List.mem_append.mp inside with before | last
    · exact held.readers reader before
    · rw [List.mem_singleton.mp last]
      rfl
  · rw [same]
    exact held.count
  · rw [same]
    exact held.bound
  · rw [same]
    exact held.freed

theorem Held.releasereader {s t : State} (held : Held s) {r : Nat} {lastcopy : Option Nat}
    (here : s.readers[r]? = some (.live lastcopy)) (released : s.stmReleasereader = some t) :
    Held (t.setReader r (.leaving lastcopy)) := by
  have unfreed := held.unfreed (holders_of_keeps here rfl)
  have vacant := held.readers _ (List.mem_of_getElem? here)
  obtain ⟨n, holders⟩ : ∃ n, s.holders = n + 1 :=
    Nat.exists_eq_succ_of_ne_zero (holders_of_keeps here rfl).ne'
  have small : n < 2 ^ 31 := by
    have bound := held.bound
    omega
  have fewer : (s.setReader r (.leaving lastcopy)).holders = n := by
    have moved := holders_setReader (.leaving lastcopy) here
    simp only [Reader.keeps, Bool.toNat_true, Bool.toNat_false] at moved
    omega
  have count : s.object.reference - 1 = Int32.ofNat n := by
    rw [held.count, holders, Words.counter_pred]
  have next : ∃ freed, (freed = true ↔ n = 0) ∧
      t = { s with object := { s.object with reference := Int32.ofNat n, freed := freed } } := by
    simp only [State.stmReleasereader, unfreed, Bool.false_eq_true, if_false, count,
      Words.counter_zero_iff n small] at released
    split_ifs at released with zero empty
    · exact ⟨true, by simp [zero], (Option.some.inj released).symm⟩
    · exact ⟨false, by simp [zero], (Option.some.inj released).symm⟩
  obtain ⟨freed, exactly, next⟩ := next
  subst next
  refine ⟨held.untouched, ?_, held.writer, held.current, held.older, ?_, ?_, ?_⟩
  · intro reader inside
    rcases List.mem_or_eq_of_mem_set inside with before | is
    · exact held.readers reader before
    · rw [is]
      exact vacant
  · exact congrArg Int32.ofNat fewer.symm
  · exact (Nat.le_of_eq fewer).trans small.le
  · exact exactly.trans (Eq.congr_left fewer).symm

theorem Held.stmCopy {s t : State} {copy : Option Nat} (held : Held s) (pos : 0 < s.holders)
    (empty : s.object.copy = none) (fetched : s.stmCopy = some (t, copy)) :
    t = s ∧ copy = none := by
  simp only [State.stmCopy, held.unfreed pos, empty, Bool.false_eq_true, if_false,
    Option.some.injEq, Prod.mk.injEq] at fetched
  exact ⟨fetched.1.symm, fetched.2.symm⟩

theorem step_held {s t : State} (held : Held s) (action : Action) (finds : FindsNone s action)
    (taken : step s action = some t) : Held t := by
  cases action with
  | update msg =>
    simp only [step] at taken
    split_ifs at taken with writer
    exact Option.some.inj taken ▸ held.update msg writer
  | copy =>
    simp only [step] at taken
    split_ifs at taken with writer
    obtain ⟨u, grabbed, rfl⟩ := Option.map_eq_some_iff.mp taken
    exact held.grab writer grabbed
  | deletewriter =>
    simp only [step] at taken
    split_ifs at taken with writer
    obtain ⟨u, released, rfl⟩ := Option.map_eq_some_iff.mp taken
    exact held.deletewriter writer released
  | newcopy =>
    simp only [step] at taken
    split_ifs at taken with pending
    exact Option.some.inj taken ▸ held.newcopy pending
  | fetch r =>
    simp only [step] at taken
    split at taken
    · rename_i lastcopy here
      obtain ⟨⟨u, copy⟩, fetched, rfl⟩ := Option.map_eq_some_iff.mp taken
      obtain ⟨rfl, rfl⟩ := held.stmCopy (holders_of_keeps here rfl) (finds r rfl) fetched
      have vacant : lastcopy = none := held.readers _ (List.mem_of_getElem? here)
      exact held.setReader here ⟨vacant, rfl⟩ rfl
    · contradiction
  | finish r =>
    simp only [step] at taken
    split at taken
    · rename_i lastcopy copy here
      obtain ⟨rfl, rfl⟩ : lastcopy = none ∧ copy = none :=
        held.readers _ (List.mem_of_getElem? here)
      simp only [State.lread, if_true, State.stmReleasecopy, Option.some.injEq] at taken
      exact taken ▸ held.setReader here rfl rfl
    · contradiction
  | releasereader r =>
    simp only [step] at taken
    split at taken
    · rename_i lastcopy here
      obtain ⟨u, released, rfl⟩ := Option.map_eq_some_iff.mp taken
      exact held.releasereader here released
    · contradiction
  | releasecopy r =>
    simp only [step] at taken
    split at taken
    · rename_i lastcopy here
      have vacant : lastcopy = none := held.readers _ (List.mem_of_getElem? here)
      rw [vacant, Option.some.injEq] at taken
      exact taken ▸ held.setReader here trivial rfl
    · contradiction

theorem counted_exactly (msg : List UInt8) (s : State)
    (path : Transition.Path step FindsNone (stmNew msg) s) : Exact s :=
  (path.invariant Held (fun _ action _ held finds taken => step_held held action finds taken)
    (stmNew_held msg)).exact

instance (s : State) (action : Action) : Decidable (FindsNone s action) :=
  match action with
  | .fetch _ => decidable_of_iff (s.object.copy = none) ⟨fun none_ _ _ => none_, fun f => f _ rfl⟩
  | .update _ | .copy | .deletewriter | .newcopy | .finish _ | .releasereader _ | .releasecopy _ =>
      .isTrue fun _ is => Action.noConfusion is

theorem late_reader_counted :
    ∃ s, Transition.Path step FindsNone (stmNew [1]) s ∧ s.object.freed = true ∧ Exact s := by
  have path : Transition.Path step FindsNone (stmNew [1]) _ :=
    .of_run [.copy, .newcopy, .update [2], .deletewriter, .fetch 0, .finish 0, .releasereader 0,
      .releasecopy 0] (.refl _) (by decide) rfl
  exact ⟨_, path, rfl, counted_exactly [1] _ path⟩

theorem fetch_found {s t : State} {r id : Nat} (unfreed : s.object.freed = false)
    (current : s.object.copy = some id) (fetched : step s (.fetch r) = some t) :
    t.object.freed = false ∧ t.object.copy = some id ∧ t.copies = s.copies ∧
      ∃ reader ∈ t.readers, reader.refers id := by
  simp only [step] at fetched
  split at fetched
  · rename_i lastcopy here
    obtain ⟨⟨v, copy⟩, taken, rfl⟩ := Option.map_eq_some_iff.mp fetched
    simp only [State.stmCopy, State.stmGrab, unfreed, current, Bool.false_eq_true,
      if_false] at taken
    split_ifs at taken with pos
    · simp only [Option.map_some, Option.some.injEq, Prod.mk.injEq] at taken
      obtain ⟨rfl, rfl⟩ := taken
      exact ⟨rfl, rfl, rfl, .reading lastcopy (some id),
        List.mem_set (List.getElem?_eq_some_iff.mp here).1 _, .inr rfl⟩
    · contradiction
  · contradiction

theorem found_version_lost (msg next : List UInt8) (s t u : State) (r : Nat)
    (path : Transition.Path step FindsNone (stmNew msg) s) (found : s.object.copy ≠ none)
    (fetched : step s (.fetch r) = some t) (updated : step t (.update next) = some u) :
    ¬Exact u := by
  have held := path.invariant Held
    (fun _ action _ held finds taken => step_held held action finds taken) (stmNew_held msg)
  have writer : s.writer = true := by
    rw [ne_eq, held.writer] at found
    exact Bool.eq_true_of_not_eq_false found
  obtain ⟨id, current⟩ := Option.ne_none_iff_exists'.mp found
  obtain ⟨old, here, reference, kept⟩ := held.current id current
  obtain ⟨unfreed, same, copies, reader, inside, refers⟩ :=
    fetch_found (held.unfreed (holders_of_writer writer)) current fetched
  rw [← copies] at here
  simp only [step] at updated
  split_ifs at updated
  rw [Option.some.injEq, stmUpdate_current next unfreed same here kept] at updated
  subst updated
  intro exactly
  have bound : id < (t.copies ++ [stmNewcopy next]).length := by
    have before := (List.getElem?_eq_some_iff.mp here).1
    rw [List.length_append]
    omega
  have freed : old.release.freed = true := by
    rw [StmCopy.release, reference]
    rfl
  exact ((exactly.version id _ (List.getElem?_set_self bound)).mp freed).2 reader inside refers

theorem read_version_freed : ¬∀ (msg : List UInt8) (actions : List Action) (s : State),
    Transition.run step (stmNew msg) actions = some s → Exact s := by
  intro always
  have last := always [1] [.copy, .newcopy, .fetch 0, .finish 0, .update [2]] _ rfl
  have unreferred := ((last.version 0 _ rfl).mp rfl).2
  exact unreferred (.live (some 0)) (List.mem_singleton_self _) rfl

end Pskynet.Stm
