import Pskynet.Skynet.Ledger
import Pskynet.Skynet.Sleepers

set_option autoImplicit false

namespace Pskynet.Skynet

open Transition

-- A service with one function that `skynet.queue` returned. `calls` counts the calls of it that a
-- coroutine is inside of, `waits` marks a coroutine in its `skynet.wait`, `called` and `entered` are
-- the outermost calls in the order in which they were made and in which they ran, and `failed`
-- says that the assertion on `ref` did not hold.
structure Locked where
  service : Service
  currentThread : Option Nat
  ref : Nat
  threadQueue : List Nat
  calls : Nat → Nat
  waits : Nat → Bool
  called : List Nat
  entered : List Nat
  failed : Bool

inductive LockAction where
  | call (session : Nat)
  | proceed
  | leave
  | other (action : Action)

namespace Locked

def start (session : Nat) : Locked where
  service := Service.start session
  currentThread := none
  ref := 0
  threadQueue := []
  calls := fun _ => 0
  waits := fun _ => false
  called := []
  entered := []
  failed := false

def enter (l : Locked) (co : Nat) : Locked :=
  { l with
    currentThread := some co
    ref := l.ref + 1
    calls := Function.update l.calls co (l.calls co + 1)
    entered := if l.calls co = 0 then l.entered ++ [co] else l.entered }

-- The function is called; `session` is the number that `skynet.wait` would use.
def call (l : Locked) (co session : Nat) : Option Locked :=
  let noted := { l with called := if l.calls co = 0 then l.called ++ [co] else l.called }
  if l.currentThread ≠ none ∧ l.currentThread ≠ some co then
    (l.service.step (.wait session)).map fun next =>
      { noted with
        service := next
        threadQueue := l.threadQueue ++ [co]
        waits := Function.update l.waits co true }
  else some (noted.enter co)

def proceed (l : Locked) (co : Nat) : Locked :=
  if l.ref = 0 then { l with waits := Function.update l.waits co false }.enter co
  else { l with waits := Function.update l.waits co false, failed := true }

def leave (l : Locked) (co : Nat) : Option Locked :=
  let left := { l with ref := l.ref - 1, calls := Function.update l.calls co (l.calls co - 1) }
  if l.ref - 1 = 0 then
    match l.threadQueue with
    | [] => some { left with currentThread := none }
    | next :: rest =>
        (l.service.step (.wakeup next)).map fun woken =>
          { left with service := woken, currentThread := some next, threadQueue := rest }
  else some left

-- A coroutine ends only outside of the function, since it has to return from it first and `xpcall`
-- catches the errors inside.
def ends : Action → Bool
  | .finish | .raise => true
  | _ => false

def allows (l : Locked) (action : Action) : Bool :=
  match l.service.mode with
  | .running co => !l.waits co && (!ends action || l.calls co == 0)
  | _ => true

def step (l : Locked) : LockAction → Option Locked
  | .call session =>
      match l.service.mode with
      | .running co => if l.waits co then none else l.call co session
      | _ => none
  | .proceed =>
      match l.service.mode with
      | .running co => if l.waits co then some (l.proceed co) else none
      | _ => none
  | .leave =>
      match l.service.mode with
      | .running co => if l.waits co ∨ l.calls co = 0 then none else l.leave co
      | _ => none
  | .other action =>
      if l.allows action then (l.service.step action).map fun next => { l with service := next }
      else none

end Locked

-- Nothing but the function wakes a coroutine that waits in it: no `skynet.wakeup`, also none from
-- before that is still pending when it starts to wait, and no message with its session.
def Undisturbed (l : Locked) : LockAction → Prop
  | .call _ => ∀ co, l.service.mode = .running co → l.currentThread ≠ none →
      l.currentThread ≠ some co → co ∉ l.service.wakeupSession
  | .other (.wakeup co) => l.waits co = false
  | .other (.response session) => ∀ co, l.service.sessionIdCoroutine session = some (.thread co) →
      l.waits co = false
  | .other .drain => ∀ session rest co, l.service.errorQueue = session :: rest →
      l.service.sessionIdCoroutine session = some (.thread co) → l.waits co = false
  | _ => True

def Locked.handed (l : Locked) : List Nat :=
  match l.currentThread with
  | some co => if l.calls co = 0 then [co] else []
  | none => []

structure Fair (l : Locked) : Prop where
  sound : Sound l.service
  inside : ∀ co, 0 < l.calls co →
    l.currentThread = some co ∧ l.ref = l.calls co ∧ l.waits co = false
  passed : ∀ co, l.currentThread = some co → l.calls co = 0 → l.ref = 0 ∧ l.waits co = true
  free : l.currentThread = none → l.ref = 0 ∧ l.threadQueue = []
  queued : ∀ co ∈ l.threadQueue, l.waits co = true ∧ l.currentThread ≠ some co
  once : l.threadQueue.Nodup
  waiting : ∀ co, l.waits co = true → co ∈ l.threadQueue ∨ l.currentThread = some co
  asleep : ∀ co, l.waits co = true → l.service.mode ≠ .running co →
    ∃ session, l.service.place co = .waiting session ∧ l.service.sleepSession co = some session
  resumed : ∀ co, l.waits co = true → l.service.mode = .running co → l.currentThread = some co
  woken : ∀ co ∈ l.service.wakeupSession, l.waits co = true → l.currentThread = some co
  owed : ∀ co, l.currentThread = some co → l.waits co = true → l.service.mode ≠ .running co →
    co ∈ l.service.wakeupSession
  order : l.called = l.entered ++ l.handed ++ l.threadQueue
  holds : l.failed = false

theorem start_fair (session : Nat) : Fair (Locked.start session) := by
  refine ⟨start_sound session, ?_, ?_, ?_, ?_, ?_, ?_, ?_, ?_, ?_, ?_, ?_, ?_⟩ <;>
    simp [Locked.start, Locked.handed]

theorem Fair.owner {l : Locked} (fair : Fair l) (co : Nat) (owns : l.currentThread = some co)
    (goes : l.waits co = false) : 0 < l.calls co := by
  by_contra none_
  have waits := (fair.passed co owns (by omega)).2
  rw [goes] at waits
  contradiction

theorem Fair.outside {l : Locked} (fair : Fair l) (co : Nat) (other : l.currentThread ≠ some co) :
    l.calls co = 0 := by
  by_contra inside
  exact other (fair.inside co (by omega)).1

theorem Fair.again {l : Locked} (fair : Fair l) (co : Nat) (owns : l.currentThread = some co)
    (goes : l.waits co = false) : Fair (l.enter co) := by
  have positive := fair.owner co owns goes
  obtain ⟨_, counted, _⟩ := fair.inside co positive
  have busy : l.calls co ≠ 0 := by omega
  have entered : (l.enter co).entered = l.entered := by simp [Locked.enter, busy]
  have handed : (l.enter co).handed = l.handed := by simp [Locked.handed, Locked.enter, owns, busy]
  have same : (l.enter co).currentThread = l.currentThread := owns.symm
  refine ⟨fair.sound, ?_, ?_, ?_, ?_, fair.once, ?_, fair.asleep, ?_, ?_, ?_, ?_, fair.holds⟩
  · intro other inside
    by_cases is : other = co
    · subst is
      refine ⟨rfl, ?_, goes⟩
      simp [Locked.enter, counted]
    · simp only [Locked.enter, Function.update_of_ne is] at inside
      have owner := (fair.inside other inside).1
      rw [owns, Option.some.injEq] at owner
      exact absurd owner.symm is
  · intro other owner zero
    have is : co = other := Option.some.inj owner
    subst is
    simp [Locked.enter] at zero
  · intro none_
    rw [same, owns] at none_
    contradiction
  · rw [same]
    exact fair.queued
  · rw [same]
    exact fair.waiting
  · rw [same]
    exact fair.resumed
  · rw [same]
    exact fair.woken
  · rw [same]
    exact fair.owed
  · rw [entered, handed]
    exact fair.order

theorem Fair.take {l : Locked} (fair : Fair l) (co : Nat) (free : l.currentThread = none) :
    Fair (Locked.enter { l with called := l.called ++ [co] } co) := by
  obtain ⟨zero, empty⟩ := fair.free free
  have idle : ∀ other, l.calls other = 0 := by
    intro other
    exact fair.outside other (by simp [free])
  have nobody : ∀ other, l.waits other ≠ true := by
    intro other waits
    rcases fair.waiting other waits with queued | owns
    · simp [empty] at queued
    · simp [free] at owns
  refine ⟨fair.sound, ?_, ?_, ?_, ?_, fair.once, ?_, fair.asleep, ?_, ?_, ?_, ?_, fair.holds⟩
  · intro other inside
    by_cases is : other = co
    · subst is
      refine ⟨rfl, ?_, by simpa [Locked.enter] using nobody other⟩
      simp [Locked.enter, zero, idle]
    · simp only [Locked.enter, Function.update_of_ne is, idle other] at inside
      omega
  · intro other owner unused
    have is : co = other := Option.some.inj owner
    subst is
    simp [Locked.enter] at unused
  · intro none_
    simp [Locked.enter] at none_
  · simp [Locked.enter, empty]
  · intro other waits
    exact absurd waits (nobody other)
  · intro other waits
    exact absurd waits (nobody other)
  · intro other _ waits
    exact absurd waits (nobody other)
  · intro other _ waits
    exact absurd waits (nobody other)
  · have before := fair.order
    simp only [Locked.handed, free, empty, List.append_nil] at before
    simp [Locked.handed, Locked.enter, idle, empty, before]

theorem Fair.proceed {l : Locked} (fair : Fair l) (co : Nat) (running : l.service.mode = .running co)
    (waits : l.waits co = true) : Fair (l.proceed co) := by
  have owns := fair.resumed co waits running
  have unused : l.calls co = 0 := by
    by_contra inside
    have goes := (fair.inside co (by omega)).2.2
    rw [waits] at goes
    contradiction
  have zero := (fair.passed co owns unused).1
  have others : ∀ other, other ≠ co → l.calls other = 0 := by
    intro other apart
    refine fair.outside other ?_
    rw [owns]
    simpa using Ne.symm apart
  have still : ∀ other, Function.update l.waits co false other = true →
      other ≠ co ∧ l.waits other = true := by
    intro other waiting
    by_cases is : other = co
    · simp [is] at waiting
    · simpa [Function.update_of_ne is, is] using waiting
  simp only [Locked.proceed, zero, if_true]
  refine ⟨fair.sound, ?_, ?_, ?_, ?_, fair.once, ?_, ?_, ?_, ?_, ?_, ?_, fair.holds⟩
  · intro other inside
    by_cases is : other = co
    · subst is
      refine ⟨rfl, ?_, by simp [Locked.enter]⟩
      simp [Locked.enter, unused]
    · simp only [Locked.enter, Function.update_of_ne is, others other is] at inside
      omega
  · intro other owner nothing
    have is : co = other := Option.some.inj owner
    subst is
    simp [Locked.enter] at nothing
  · intro none_
    simp [Locked.enter] at none_
  · intro other queued
    obtain ⟨asleep, apart⟩ := fair.queued other queued
    have is : other ≠ co := by
      intro same
      exact apart (same ▸ owns)
    exact ⟨by simpa [Locked.enter, Function.update_of_ne is] using asleep,
      by simpa [Locked.enter] using Ne.symm is⟩
  · intro other waiting
    obtain ⟨apart, before⟩ := still other waiting
    rcases fair.waiting other before with queued | owner
    · exact .inl queued
    · rw [owns, Option.some.injEq] at owner
      exact absurd owner.symm apart
  · intro other waiting rests
    exact fair.asleep other (still other waiting).2 rests
  · intro other waiting runs
    have is : co = other := Mode.running.inj (running.symm.trans runs)
    exact absurd is.symm (still other waiting).1
  · intro other listed waiting
    obtain ⟨apart, before⟩ := still other waiting
    have owner := fair.woken other listed before
    rw [owns, Option.some.injEq] at owner
    exact absurd owner.symm apart
  · intro other owner waiting
    have is : co = other := Option.some.inj owner
    exact absurd is.symm (still other waiting).1
  · have before := fair.order
    simp only [Locked.handed, owns, unused, if_true] at before
    simp [Locked.handed, Locked.enter, unused, before]

theorem Fair.other {l : Locked} (fair : Fair l) (action : Action) (next : Service)
    (allowed : l.allows action = true) (undisturbed : Undisturbed l (.other action))
    (taken : l.service.step action = some next) : Fair { l with service := next } := by
  have sleepers := step_sleepers fair.sound.scheduled action taken
  have rests : ∀ co, l.waits co = true → l.service.mode ≠ .running co := by
    intro co waits running
    simp [Locked.allows, running, waits] at allowed
  refine ⟨(fair.sound.step action taken).1, fair.inside, fair.passed, fair.free, fair.queued,
    fair.once, fair.waiting, ?_, ?_, ?_, ?_, fair.order, fair.holds⟩
  · intro co waits after
    obtain ⟨session, place, asleep⟩ := fair.asleep co waits (rests co waits)
    have same := sleepers.others co (rests co waits) after (by simp [place, Place.free])
    exact ⟨session, same.1.trans place, same.2.trans asleep⟩
  · intro co waits runs
    obtain ⟨session, place, asleep⟩ := fair.asleep co waits (rests co waits)
    rcases sleepers.resumed co runs with before | free | forked | resumes
    · exact absurd before (rests co waits)
    · simp [place, Place.free] at free
    · simp [place] at forked
    · cases action with
      | wake other =>
        obtain ⟨rfl, listed⟩ := resumes
        exact fair.woken other listed waits
      | response session =>
        have goes := undisturbed co resumes
        rw [waits] at goes
        contradiction
      | drain =>
        obtain ⟨session, rest, queue, found⟩ := resumes
        have goes := undisturbed session rest co queue found
        rw [waits] at goes
        contradiction
      | _ => exact resumes.elim
  · intro co listed waits
    rcases sleepers.added co listed with before | rfl
    · exact fair.woken co before waits
    · have goes : l.waits co = false := undisturbed
      rw [waits] at goes
      contradiction
  · intro co owns waits after
    have listed := fair.owed co owns waits (rests co waits)
    rcases sleepers.kept co listed with kept | ⟨_, runs⟩
    · exact kept
    · obtain ⟨session, _, asleep⟩ := fair.asleep co waits (rests co waits)
      exact absurd (runs (by simp [asleep])) after

theorem wait_step {s t : Service} (co session : Nat) (running : s.mode = .running co)
    (taken : s.step (.wait session) = some t) :
    t.mode = .wakeups ∧ t.place co = .waiting session ∧ t.sleepSession co = some session ∧
      t.wakeupSession = s.wakeupSession := by
  simp only [Service.step, running, Service.perform, Option.some.injEq] at taken
  subst taken
  simp [Service.setEntry, Service.setPlace]

theorem Fair.queue {l : Locked} (fair : Fair l) (co owner session : Nat) (next : Service)
    (running : l.service.mode = .running co) (goes : l.waits co = false)
    (owns : l.currentThread = some owner) (apart : owner ≠ co)
    (unwoken : co ∉ l.service.wakeupSession) (taken : l.service.step (.wait session) = some next) :
    Fair { l with
      called := l.called ++ [co]
      service := next
      threadQueue := l.threadQueue ++ [co]
      waits := Function.update l.waits co true } := by
  have sleepers := step_sleepers fair.sound.scheduled _ taken
  obtain ⟨mode, place, asleep, wakes⟩ := wait_step co session running taken
  have unused : l.calls co = 0 := fair.outside co (by simpa [owns] using apart)
  have before : ∀ other, other ≠ co → Function.update l.waits co true other = true →
      l.waits other = true := by
    intro other different waits
    simpa [Function.update_of_ne different] using waits
  have rests : ∀ other, other ≠ co → l.service.mode ≠ .running other := by
    intro other different runs
    exact different (Mode.running.inj (runs.symm.trans running))
  have new : co ∉ l.threadQueue := by
    intro queued
    have waits := (fair.queued co queued).1
    rw [goes] at waits
    contradiction
  refine ⟨(fair.sound.step _ taken).1, ?_, ?_, ?_, ?_, ?_, ?_, ?_, ?_, ?_, ?_, ?_, fair.holds⟩
  · intro other inside
    obtain ⟨has, counted, free⟩ := fair.inside other inside
    have different : other ≠ co := by
      intro same
      rw [same, unused] at inside
      omega
    exact ⟨has, counted, by simpa [Function.update_of_ne different] using free⟩
  · intro other has zero
    obtain ⟨none_, waits⟩ := fair.passed other has zero
    refine ⟨none_, ?_⟩
    have different : other ≠ co := by
      intro same
      rw [same, goes] at waits
      contradiction
    simpa [Function.update_of_ne different] using waits
  · intro none_
    rw [owns] at none_
    contradiction
  · intro other queued
    rcases List.mem_append.mp queued with old | added
    · obtain ⟨waits, others⟩ := fair.queued other old
      have different : other ≠ co := fun same => new (same ▸ old)
      exact ⟨by simpa [Function.update_of_ne different] using waits, others⟩
    · rw [List.mem_singleton.mp added]
      exact ⟨by simp, by simpa [owns] using apart⟩
  · refine List.nodup_append.mpr ⟨fair.once, List.nodup_singleton co, ?_⟩
    intro other old again added same
    rw [List.mem_singleton.mp added] at same
    exact new (same ▸ old)
  · intro other waits
    by_cases is : other = co
    · exact .inl (by simp [is])
    · rcases fair.waiting other (before other is waits) with queued | has
      · exact .inl (List.mem_append_left _ queued)
      · exact .inr has
  · intro other waits after
    by_cases is : other = co
    · subst is
      exact ⟨session, place, asleep⟩
    · obtain ⟨old, there, sleeps⟩ := fair.asleep other (before other is waits) (rests other is)
      have same := sleepers.others other (rests other is) after (by simp [there, Place.free])
      exact ⟨old, same.1.trans there, same.2.trans sleeps⟩
  · intro other _ runs
    exact absurd (mode.symm.trans runs) (by simp)
  · intro other listed waits
    by_cases is : other = co
    · exact absurd (wakes ▸ is ▸ listed) unwoken
    · exact fair.woken other (wakes ▸ listed) (before other is waits)
  · intro other has waits _
    have is : other ≠ co := by
      intro same
      rw [owns, same, Option.some.injEq] at has
      exact apart has
    exact wakes ▸ fair.owed other has (before other is waits) (rests other is)
  · have handed : Locked.handed { l with
        called := l.called ++ [co]
        service := next
        threadQueue := l.threadQueue ++ [co]
        waits := Function.update l.waits co true } = l.handed := rfl
    rw [handed, fair.order]
    simp

theorem wakeup_step {s : Service} (co next session : Nat) (running : s.mode = .running co)
    (asleep : s.sleepSession next = some session) (unwoken : next ∉ s.wakeupSession) :
    s.step (.wakeup next) = some { s with wakeupSession := s.wakeupSession ++ [next] } := by
  simp [Service.step, running, Service.perform, asleep, unwoken]

theorem Fair.inner {l : Locked} (fair : Fair l) (co : Nat) (more : 1 < l.calls co) :
    Fair { l with ref := l.ref - 1, calls := Function.update l.calls co (l.calls co - 1) } := by
  obtain ⟨owns, counted, goes⟩ := fair.inside co (by omega)
  have left : l.calls co - 1 ≠ 0 := by omega
  have busy : l.calls co ≠ 0 := by omega
  refine ⟨fair.sound, ?_, ?_, ?_, fair.queued, fair.once, fair.waiting, fair.asleep, fair.resumed,
    fair.woken, fair.owed, ?_, fair.holds⟩
  · intro other inside
    by_cases is : other = co
    · subst is
      exact ⟨owns, by simp [counted], goes⟩
    · simp only [Function.update_of_ne is] at inside
      have owner := (fair.inside other inside).1
      rw [owns, Option.some.injEq] at owner
      exact absurd owner.symm is
  · intro other owner zero
    rw [owns, Option.some.injEq] at owner
    subst owner
    simp only [Function.update_self] at zero
    omega
  · intro none_
    rw [owns] at none_
    contradiction
  · have handed : Locked.handed { l with
        ref := l.ref - 1
        calls := Function.update l.calls co (l.calls co - 1) } = l.handed := by
      simp [Locked.handed, owns, left, busy]
    rw [handed]
    exact fair.order

theorem Fair.emptied {l : Locked} (fair : Fair l) (co : Nat) (last : l.calls co = 1)
    (other : Nat) : Function.update l.calls co (l.calls co - 1) other = 0 := by
  by_cases is : other = co
  · simp [is, last]
  · rw [Function.update_of_ne is]
    refine fair.outside other ?_
    rw [(fair.inside co (by omega)).1]
    simpa using Ne.symm is

theorem Fair.release {l : Locked} (fair : Fair l) (co : Nat) (last : l.calls co = 1)
    (empty : l.threadQueue = []) :
    Fair { l with
      ref := l.ref - 1
      calls := Function.update l.calls co (l.calls co - 1)
      currentThread := none } := by
  obtain ⟨owns, counted, goes⟩ := fair.inside co (by omega)
  have idle := fair.emptied co last
  have nobody : ∀ other, l.waits other ≠ true := by
    intro other waits
    rcases fair.waiting other waits with queued | owner
    · simp [empty] at queued
    · rw [owns, Option.some.injEq] at owner
      rw [← owner, goes] at waits
      contradiction
  refine ⟨fair.sound, ?_, by simp, ?_, by simp [empty], fair.once, ?_, fair.asleep, ?_, ?_, by simp, ?_,
    fair.holds⟩
  · intro other inside
    simp only [idle other] at inside
    omega
  · intro _
    exact ⟨by simp [counted, last], empty⟩
  · intro other waits
    exact absurd waits (nobody other)
  · intro other waits
    exact absurd waits (nobody other)
  · intro other _ waits
    exact absurd waits (nobody other)
  · have before := fair.order
    simp only [Locked.handed, owns, last, empty] at before
    simpa [Locked.handed, empty] using before

theorem Fair.pass {l : Locked} (fair : Fair l) (co next : Nat) (rest : List Nat)
    (running : l.service.mode = .running co) (last : l.calls co = 1)
    (queue : l.threadQueue = next :: rest) :
    ∃ woken, l.service.step (.wakeup next) = some woken ∧ next ∈ woken.wakeupSession ∧
      Fair { l with
        ref := l.ref - 1
        calls := Function.update l.calls co (l.calls co - 1)
        service := woken
        currentThread := some next
        threadQueue := rest } := by
  obtain ⟨owns, counted, goes⟩ := fair.inside co (by omega)
  obtain ⟨waits, apart⟩ := fair.queued next (by simp [queue])
  have different : next ≠ co := by
    intro same
    exact apart (same ▸ owns)
  have rests : ∀ other, other ≠ co → l.service.mode ≠ .running other := by
    intro other is runs
    exact is (Mode.running.inj (runs.symm.trans running))
  obtain ⟨session, place, asleep⟩ := fair.asleep next waits (rests next different)
  have unwoken : next ∉ l.service.wakeupSession := by
    intro listed
    exact apart (fair.woken next listed waits)
  have taken := wakeup_step co next session running asleep unwoken
  have once := fair.once
  rw [queue, List.nodup_cons] at once
  have idle := fair.emptied co last
  refine ⟨_, taken, by simp, (fair.sound.step _ taken).1, ?_, ?_, by simp, ?_, once.2, ?_, fair.asleep,
    ?_, ?_, ?_, ?_, fair.holds⟩
  · intro other inside
    simp only [idle other] at inside
    omega
  · intro other owner _
    have is : next = other := Option.some.inj owner
    exact ⟨by simp [counted, last], is ▸ waits⟩
  · intro other inside
    obtain ⟨sleeps, _⟩ := fair.queued other (by simp [queue, inside])
    refine ⟨sleeps, ?_⟩
    intro same
    have is : next = other := Option.some.inj same
    exact once.1 (is ▸ inside)
  · intro other sleeps
    rcases fair.waiting other sleeps with queued | owner
    · rw [queue] at queued
      rcases List.mem_cons.mp queued with rfl | later
      · exact .inr rfl
      · exact .inl later
    · rw [owns, Option.some.injEq] at owner
      rw [← owner, goes] at sleeps
      contradiction
  · intro other sleeps runs
    have is : co = other := Mode.running.inj (running.symm.trans runs)
    rw [← is, goes] at sleeps
    contradiction
  · intro other listed sleeps
    rcases List.mem_append.mp listed with old | new
    · have owner := fair.woken other old sleeps
      rw [owns, Option.some.injEq] at owner
      rw [← owner, goes] at sleeps
      contradiction
    · rw [List.mem_singleton.mp new]
  · intro other owner _ _
    have is : next = other := Option.some.inj owner
    simp [is]
  · have before := fair.order
    simp only [Locked.handed, owns, last, queue] at before
    simp [Locked.handed, idle next, before]

theorem Fair.leave {l : Locked} (fair : Fair l) (co : Nat) (running : l.service.mode = .running co)
    (inside : 0 < l.calls co) : ∃ left, l.leave co = some left ∧ Fair left := by
  obtain ⟨_, counted, _⟩ := fair.inside co inside
  by_cases last : l.calls co = 1
  · have zero : l.ref - 1 = 0 := by omega
    cases queue : l.threadQueue with
    | nil => exact ⟨_, by simp only [Locked.leave, zero, if_true, queue], fair.release co last queue⟩
    | cons next rest =>
      obtain ⟨woken, taken, _, after⟩ := fair.pass co next rest running last queue
      exact ⟨_, by simp only [Locked.leave, zero, if_true, queue, taken, Option.map_some], after⟩
  · have nonzero : l.ref - 1 ≠ 0 := by omega
    exact ⟨_, by simp only [Locked.leave, nonzero, if_false], fair.inner co (by omega)⟩

theorem call_again {l : Locked} (co session : Nat) (owns : l.currentThread = some co)
    (inside : 0 < l.calls co) : l.call co session = some (l.enter co) := by
  have busy : l.calls co ≠ 0 := by omega
  simp [Locked.call, Locked.enter, owns, busy]

theorem Fair.call {l m : Locked} (fair : Fair l) (co session : Nat)
    (running : l.service.mode = .running co) (goes : l.waits co = false)
    (undisturbed : Undisturbed l (.call session)) (taken : l.call co session = some m) :
    Fair m := by
  cases owns : l.currentThread with
  | none =>
    have unused := fair.outside co (by simp [owns])
    simp only [Locked.call, owns, unused, ne_eq, not_true_eq_false, false_and, if_false, if_true,
      Option.some.injEq] at taken
    exact taken ▸ fair.take co owns
  | some owner =>
    by_cases same : owner = co
    · subst same
      rw [call_again owner session owns (fair.owner owner owns goes), Option.some.injEq] at taken
      exact taken ▸ fair.again owner owns goes
    · have unused := fair.outside co (by simpa [owns] using same)
      have away : l.currentThread ≠ none ∧ l.currentThread ≠ some co := by
        simpa [owns] using same
      simp only [Locked.call, away, unused, ne_eq, not_false_eq_true, and_self, if_true] at taken
      obtain ⟨next, step, rfl⟩ := Option.map_eq_some_iff.mp taken
      have unwoken := undisturbed co running away.1 away.2
      exact fair.queue co owner session next running goes owns same unwoken step

theorem Fair.step {l m : Locked} (fair : Fair l) (action : LockAction)
    (undisturbed : Undisturbed l action) (taken : l.step action = some m) : Fair m := by
  cases action with
  | call session =>
    simp only [Locked.step] at taken
    split at taken
    case h_1 co running =>
      split at taken
      case isTrue => contradiction
      case isFalse goes =>
        exact fair.call co session running (by simpa using goes) undisturbed taken
    case h_2 => contradiction
  | proceed =>
    simp only [Locked.step] at taken
    split at taken
    case h_1 co running =>
      split at taken
      case isTrue waits =>
        simp only [Option.some.injEq] at taken
        exact taken ▸ fair.proceed co running waits
      case isFalse => contradiction
    case h_2 => contradiction
  | leave =>
    simp only [Locked.step] at taken
    split at taken
    case h_1 co running =>
      split at taken
      case isTrue => contradiction
      case isFalse goes =>
        obtain ⟨left, is, after⟩ := fair.leave co running (by omega)
        rw [is, Option.some.injEq] at taken
        exact taken ▸ after
    case h_2 => contradiction
  | other action =>
    simp only [Locked.step] at taken
    split at taken
    case isTrue allowed =>
      obtain ⟨next, step, rfl⟩ := Option.map_eq_some_iff.mp taken
      exact fair.other action next allowed undisturbed step
    case isFalse => contradiction

theorem queue_fair {session : Nat} {l : Locked}
    (path : Path Locked.step Undisturbed (Locked.start session) l) :
    (∀ co other, 0 < l.calls co → 0 < l.calls other → co = other) ∧
    l.entered <+: l.called ∧ l.failed = false ∧
    (∀ co, l.currentThread = some co → l.ref = l.calls co) ∧
    (l.currentThread = none → l.ref = 0 ∧ l.threadQueue = [] ∧ ∀ co, l.calls co = 0) ∧
    (∀ co again, l.service.mode = .running co → 0 < l.calls co →
      ∃ m, l.step (.call again) = some m ∧ m.service = l.service ∧
        m.calls co = l.calls co + 1 ∧ m.ref = m.calls co) ∧
    ∀ co, l.service.mode = .running co → l.calls co = 1 →
      ∃ m, l.step .leave = some m ∧ m.ref = 0 ∧ (∀ other, m.calls other = 0) ∧
        (l.threadQueue = [] ∧ m.currentThread = none ∨
          ∃ next rest, l.threadQueue = next :: rest ∧ m.currentThread = some next ∧
            m.threadQueue = rest ∧ next ∈ m.service.wakeupSession) := by
  have fair : Fair l := by
    refine path.invariant Fair ?_ (start_fair session)
    intro before action after holds undisturbed taken
    exact holds.step action undisturbed taken
  refine ⟨?_, ?_, fair.holds, ?_, ?_, ?_, ?_⟩
  · intro co other inside also
    have first := (fair.inside co inside).1
    rw [(fair.inside other also).1, Option.some.injEq] at first
    exact first.symm
  · rw [fair.order, List.append_assoc]
    exact List.prefix_append _ _
  · intro co owns
    by_cases zero : l.calls co = 0
    · rw [zero]
      exact (fair.passed co owns zero).1
    · exact (fair.inside co (by omega)).2.1
  · intro free
    obtain ⟨zero, empty⟩ := fair.free free
    exact ⟨zero, empty, fun co => fair.outside co (by simp [free])⟩
  · intro co again running inside
    obtain ⟨owns, counted, goes⟩ := fair.inside co inside
    refine ⟨l.enter co, ?_, rfl, by simp [Locked.enter], by simp [Locked.enter, counted]⟩
    simp only [Locked.step, running, goes, Bool.false_eq_true, if_false]
    exact call_again co again owns inside
  · intro co running last
    obtain ⟨owns, counted, goes⟩ := fair.inside co (by omega)
    have zero : l.ref - 1 = 0 := by omega
    have outer : l.step .leave = l.leave co := by
      simp [Locked.step, running, goes, last]
    rw [outer]
    cases queue : l.threadQueue with
    | nil =>
      refine ⟨_, by simp only [Locked.leave, zero, if_true, queue]; rfl, rfl,
        fair.emptied co last, ?_⟩
      exact .inl ⟨rfl, rfl⟩
    | cons next rest =>
      obtain ⟨woken, taken, listed, _⟩ := fair.pass co next rest running last queue
      refine ⟨_, by simp only [Locked.leave, zero, if_true, queue, taken, Option.map_some]; rfl, rfl,
        fair.emptied co last, ?_⟩
      exact .inr ⟨next, rest, rfl, rfl, rfl, listed⟩

def waitBehindSleeper : List LockAction :=
  [.other (.request 1 7 true true), .call 20, .other (.sleep 21), .other .awake, .other .drain,
    .other .done, .other (.request 2 7 true true), .call 22, .other .awake, .other .drain,
    .other .done, .other (.response 21), .leave, .other .finish, .other (.wake 2), .proceed]

theorem second_handler_enters :
    ∃ l, run Locked.step (Locked.start 0) waitBehindSleeper = some l ∧
      l.currentThread = some 2 ∧ l.calls 2 = 1 ∧ l.called = [1, 2] ∧ l.entered = [1, 2] ∧
      l.failed = false ∧ l.ref = l.calls 2 := by
  have along : Along Locked.step Undisturbed (Locked.start 0) waitBehindSleeper := by
    refine ⟨trivial, fun _ _ taken _ => (taken rfl).elim, trivial, trivial, ?_, trivial, trivial, ?_,
      trivial, ?_, trivial, ?_, trivial, trivial, trivial, trivial, trivial⟩
    · intro session rest co queue
      contradiction
    · intro co _ _ _ inside
      exact List.not_mem_nil inside
    · intro session rest co queue
      contradiction
    · intro co found
      have is : Waiter.thread 1 = Waiter.thread co := Option.some.inj found
      cases is
      rfl
  have fair := fun l => @queue_fair 0 l
  refine ⟨_, rfl, rfl, by decide, by decide, by decide, ?_, ?_⟩
  · exact (fair _ (Path.of_run waitBehindSleeper (.refl _) along rfl)).2.2.1
  · exact (fair _ (Path.of_run waitBehindSleeper (.refl _) along rfl)).2.2.2.1 2 rfl

end Pskynet.Skynet
