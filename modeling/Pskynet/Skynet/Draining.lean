import Pskynet.Skynet.Ledger

set_option autoImplicit false

namespace Pskynet.Skynet

open Transition

def Service.quiet (s : Service) : Prop := s.errorQueue = [] ∧ s.wakeupSession = []

def Service.watched (s : Service) : List Nat := s.watchingSession.map Prod.fst

-- `suspend` goes on after `RETURN`, and after `RESPONSE`.
def Books.returns (b : Books) (co : Nat) : Prop :=
  b.sessionResponse co = none ∧ b.sessionCoroutineAddress co ≠ none

def Books.grants (b : Books) (co : Nat) : Prop :=
  b.sessionResponse co = none ∧
    ∃ address, b.sessionCoroutineAddress co = some address ∧ b.watchingService address ≠ none

-- Nothing is raised, and `suspend` does not leave early, while something waits to be drained; no
-- session fails twice, and a new session is not in use.
def Drains (s : Service) : Action → Prop
  | .raise => s.quiet
  | .ret => ∀ co, s.mode = .running co → s.returns co ∨ s.quiet
  | .askResponse => ∀ co, s.mode = .running co → s.grants co ∨ s.quiet
  | .exit | .yield => s.wakeupSession = [] ∧ (s.depth = 0 → s.errorQueue = [])
  | .term address _ => ∀ session ∈ s.errorQueue, (session, address) ∉ s.watchingSession
  | .call session _ | .sleep session | .wait session => s.sessionIdCoroutine session = none
  | _ => True

structure Waits (s : Service) : Prop where
  watch : ∀ session ∈ s.watched, ∃ co,
    s.sessionIdCoroutine session = some (.thread co) ∧ s.place co = .calling session
  watchOnce : s.watched.Nodup
  asleep : ∀ co session, s.sleepSession co = some session →
    s.sessionIdCoroutine session = some (.thread co)

structure Pending (s : Service) : Prop where
  errors : ∀ session ∈ s.errorQueue, session ∈ s.watched
  errorsOnce : s.errorQueue.Nodup
  wakes : ∀ co ∈ s.wakeupSession, s.sleepSession co ≠ none
  wakesOnce : s.wakeupSession.Nodup

structure Draining (s : Service) : Prop where
  waits : Waits s
  pending : Pending s
  idle : s.mode = .idle → s.quiet
  forks : s.mode = .forks → s.quiet
  draining : s.mode = .errors → s.wakeupSession = []

theorem Waits.frame {s t : Service} (waits : Waits s)
    (watching : t.watchingSession = s.watchingSession)
    (entry : t.sessionIdCoroutine = s.sessionIdCoroutine) (sleep : t.sleepSession = s.sleepSession)
    (place : ∀ co session, s.place co = .calling session → t.place co = .calling session) :
    Waits t := by
  obtain ⟨watch, once, asleep⟩ := waits
  refine ⟨?_, ?_, ?_⟩
  · intro session inside
    rw [Service.watched, watching] at inside
    obtain ⟨co, found, calling⟩ := watch session inside
    exact ⟨co, entry ▸ found, place co session calling⟩
  · rw [Service.watched, watching]
    exact once
  · rw [sleep, entry]
    exact asleep

theorem Pending.frame {s t : Service} (pending : Pending s)
    (watching : t.watchingSession = s.watchingSession) (sleep : t.sleepSession = s.sleepSession)
    (errors : t.errorQueue = s.errorQueue) (wakes : t.wakeupSession = s.wakeupSession) :
    Pending t := by
  obtain ⟨p1, p2, p3, p4⟩ := pending
  constructor <;> simp only [Service.watched, watching, sleep, errors, wakes] <;> assumption

theorem Pending.of_quiet {s : Service} (quiet : s.quiet) : Pending s := by
  obtain ⟨errors, wakes⟩ := quiet
  constructor <;> simp [errors, wakes]

theorem calling_update {place : Nat → Place} {co : Nat} (new : Place)
    (here : ∀ session, place co ≠ .calling session) (other session : Nat)
    (calling : place other = .calling session) :
    Function.update place co new other = .calling session := by
  by_cases same : other = co
  · subst same
    exact absurd calling (here session)
  · rw [Function.update_of_ne same]
    exact calling

structure Continued (s : Service) (session co : Nat) (t : Service) : Prop where
  waits : Waits t
  mode : t.mode = .running co
  watched : ∀ other ∈ s.watched, other ≠ session → other ∈ t.watched
  sleep : ∀ other, other ≠ co → t.sleepSession other = s.sleepSession other
  errorQueue : t.errorQueue = s.errorQueue
  wakeupSession : t.wakeupSession = s.wakeupSession
  unwatched : session ∉ t.watched
  entry : ∀ waiter, t.sessionIdCoroutine session ≠ some (.thread waiter)

theorem continued_of {s t : Service} (waits : Waits s) (session co : Nat)
    (known : s.sessionIdCoroutine session = some (.thread co))
    (awaits : (s.place co).awaits session)
    (place : t.place = Function.update s.place co .running) (mode : t.mode = .running co)
    (entry : ∀ other, other ≠ session → t.sessionIdCoroutine other = s.sessionIdCoroutine other)
    (gone : ∀ waiter, t.sessionIdCoroutine session ≠ some (.thread waiter))
    (awake : t.sleepSession co = none)
    (sleep : ∀ other, other ≠ co → t.sleepSession other = s.sleepSession other)
    (watching : t.watchingSession = s.watchingSession.filter fun entry => entry.1 ≠ session)
    (errors : t.errorQueue = s.errorQueue) (wakes : t.wakeupSession = s.wakeupSession) :
    Continued s session co t := by
  obtain ⟨watch, once, asleep⟩ := waits
  have watched : t.watched = s.watched.filter fun other => other ≠ session := by
    simp only [Service.watched, watching, List.filter_map]
    rfl
  refine ⟨⟨?_, ?_, ?_⟩, mode, ?_, sleep, errors, wakes, ?_, gone⟩
  · intro other inside
    rw [watched, List.mem_filter] at inside
    obtain ⟨before, apart⟩ := inside
    have apart : other ≠ session := by simpa using apart
    obtain ⟨caller, found, calling⟩ := watch other before
    refine ⟨caller, (entry other apart).trans found, ?_⟩
    rw [place]
    by_cases same : caller = co
    · subst same
      rw [calling] at awaits
      exact absurd awaits apart
    · rw [Function.update_of_ne same]
      exact calling
  · rw [watched]
    exact once.filter _
  · intro sleeper other found
    have apart : sleeper ≠ co := by
      intro same
      rw [same, awake] at found
      contradiction
    rw [sleep sleeper apart] at found
    have before := asleep sleeper other found
    have different : other ≠ session := by
      intro same
      rw [same, known] at before
      exact apart (by simpa using before.symm)
    rw [entry other different]
    exact before
  · intro other inside apart
    rw [watched, List.mem_filter]
    exact ⟨inside, by simpa using apart⟩
  · rw [watched]
    simp

theorem resume_continued {s : Service} (tables : Tables s) (waits : Waits s)
    (session co depth : Nat) (known : s.sessionIdCoroutine session = some (.thread co))
    (entry : Option Waiter) (free : ∀ other, entry ≠ some (.thread other)) :
    Continued s session co ((s.setEntry session entry).resume co depth) := by
  have awaits := tables.entry session co known
  -- Only a coroutine that waits for a call has a session that is watched.
  have unwatched (other : ∀ session, s.place co ≠ .calling session) :
      s.watchingSession = s.watchingSession.filter fun entry => entry.1 ≠ session := by
    refine (List.filter_eq_self.mpr ?_).symm
    intro pair inside
    simp only [decide_eq_true_eq]
    intro same
    obtain ⟨caller, found, calling⟩ := waits.watch pair.1 (List.mem_map.mpr ⟨pair, inside, rfl⟩)
    rw [same, known, Option.some.injEq, Waiter.thread.injEq] at found
    exact other _ (found ▸ calling)
  have set : ∀ other, other ≠ session →
      Function.update s.sessionIdCoroutine session entry other = s.sessionIdCoroutine other := by
    intro other apart
    exact Function.update_of_ne apart _ _
  have at_ : ∀ waiter, Function.update s.sessionIdCoroutine session entry session ≠
      some (.thread waiter) := by
    simpa using free
  have resumes : (s.setEntry session entry).place co = s.place co := rfl
  cases place : s.place co with
  | calling other =>
    have same : other = session := by simpa [place, Place.awaits] using awaits
    have awake := tables.noSleep co (by simp [place, Place.sleeps])
    simp only [Service.resume, resumes, place, same]
    exact continued_of waits session co known awaits rfl rfl set at_ awake (fun _ _ => rfl) rfl rfl
      rfl
  | sleeping other =>
    simp only [Service.resume, resumes, place]
    refine continued_of waits session co known awaits rfl rfl set at_ (by simp) ?_
      (unwatched (by simp [place])) rfl rfl
    intro sleeper apart
    exact Function.update_of_ne apart _ _
  | waiting other =>
    have same : other = session := by simpa [place, Place.awaits] using awaits
    simp only [Service.resume, resumes, place, same]
    refine continued_of waits session co known awaits rfl rfl ?_ ?_ (by simp) ?_
      (unwatched (by simp [place])) rfl rfl
    · intro session' apart
      simp [Service.setEntry, Service.setPlace, Function.update_of_ne apart]
    · simp [Service.setEntry]
    · intro sleeper apart
      exact Function.update_of_ne apart _ _
  | due other =>
    have awake := tables.noSleep co (by simp [place, Place.sleeps])
    simp only [Service.resume, resumes, place]
    exact continued_of waits session co known awaits rfl rfl set at_ awake (fun _ _ => rfl)
      (unwatched (by simp [place])) rfl rfl
  | unborn | fresh | forked | running | stuck | pooled | dead =>
    simp [place, Place.awaits] at awaits

theorem Draining.running {s : Service} (waits : Waits s) (pending : Pending s) (co : Nat)
    (mode : s.mode = .running co) : Draining s := by
  refine ⟨waits, pending, ?_, ?_, ?_⟩ <;> simp [mode]

theorem Draining.wakeups {s : Service} (waits : Waits s) (pending : Pending s)
    (mode : s.mode = .wakeups) : Draining s := by
  refine ⟨waits, pending, ?_, ?_, ?_⟩ <;> simp [mode]

theorem Draining.unwind {s : Service} (waits : Waits s) (quiet : s.quiet) : Draining s.unwind :=
  ⟨waits.frame rfl rfl rfl (fun _ _ calling => calling), .of_quiet quiet, fun _ => quiet,
    fun _ => quiet, fun _ => quiet.2⟩

theorem Draining.back {s : Service} (waits : Waits s) (pending : Pending s)
    (awake : s.wakeupSession = []) (last : s.depth = 0 → s.errorQueue = []) : Draining s.back := by
  unfold Service.back
  split
  case h_1 top =>
    have quiet : s.quiet := ⟨last top, awake⟩
    exact ⟨waits.frame rfl rfl rfl (fun _ _ calling => calling), .of_quiet quiet, fun _ => quiet,
      fun _ => quiet, fun _ => awake⟩
  case h_2 =>
    exact ⟨waits.frame rfl rfl rfl (fun _ _ calling => calling), pending.frame rfl rfl rfl rfl,
      by simp, by simp, fun _ => awake⟩

theorem Waits.setEntry {s : Service} (waits : Waits s) (session : Nat) (entry : Option Waiter)
    (unused : ∀ co, s.sessionIdCoroutine session ≠ some (.thread co)) :
    Waits (s.setEntry session entry) := by
  obtain ⟨watch, once, asleep⟩ := waits
  refine ⟨?_, once, ?_⟩
  · intro other inside
    obtain ⟨co, found, calling⟩ := watch other inside
    have apart : other ≠ session := by
      intro same
      exact unused co (same ▸ found)
    exact ⟨co, by simpa [Service.setEntry, Function.update_of_ne apart] using found, calling⟩
  · intro co other sleeps
    have found := asleep co other sleeps
    have apart : other ≠ session := by
      intro same
      exact unused co (same ▸ found)
    simpa [Service.setEntry, Function.update_of_ne apart] using found

theorem resume_ready {s : Service} (co depth : Nat)
    (place : s.place co = .fresh ∨ s.place co = .forked) :
    s.resume co depth = { s.setPlace co .running with mode := .running co, depth := depth } := by
  rcases place with place | place <;> simp [Service.resume, place]

theorem ready_draining {s : Service} (waits : Waits s) (pending : Pending s) (co depth : Nat)
    (place : s.place co = .fresh ∨ s.place co = .forked) : Draining (s.resume co depth) := by
  rw [resume_ready co depth place]
  refine .running (waits.frame rfl rfl rfl ?_) (pending.frame rfl rfl rfl rfl) co rfl
  refine calling_update .running ?_
  rcases place with place | place <;> simp [place]

theorem Place.free_calling {place : Place} (free : place.free) (session : Nat) :
    place ≠ .calling session := by
  intro calling
  rw [calling] at free
  contradiction

theorem Created.waits {s t : Service} {place : Place} {co : Nat} (created : Created s place co t)
    (waits : Waits s) : Waits t := by
  obtain ⟨pool, coroutines, _, frame⟩ := created.frame
  rw [frame]
  exact waits.frame rfl rfl rfl (calling_update place (Place.free_calling created.free))

theorem Created.pending {s t : Service} {place : Place} {co : Nat} (created : Created s place co t)
    (pending : Pending s) : Pending t := by
  obtain ⟨pool, coroutines, _, frame⟩ := created.frame
  rw [frame]
  exact pending.frame rfl rfl rfl rfl

theorem Waits.withBooks {s : Service} (waits : Waits s) (books : Books) :
    Waits { s with toBooks := books } :=
  waits.frame rfl rfl rfl (fun _ _ calling => calling)

theorem Pending.withBooks {s : Service} (pending : Pending s) (books : Books) :
    Pending { s with toBooks := books } :=
  pending.frame rfl rfl rfl rfl

theorem errorDispatch_pending {s t : Service} (waits : Waits s) (pending : Pending s)
    (session source : Nat) (order : List Nat)
    (apart : ∀ other ∈ s.errorQueue, (other, source) ∉ s.watchingSession)
    (new : session ≠ 0 → session ∉ s.errorQueue)
    (told : s.errorDispatch session source order = some t) : Waits t ∧ Pending t := by
  obtain ⟨dead, queue, rfl, shape⟩ := errorDispatch_eq session source order told
  have joins : queue.Nodup ∧ ∀ other ∈ queue, other ∈ s.watched ∧ other ∉ s.errorQueue := by
    rcases shape with ⟨_, _, perm⟩ | ⟨nonzero, rfl, watched⟩ | ⟨_, rfl⟩
    · refine ⟨perm.nodup_iff.mpr (waits.watchOnce.sublist (List.filter_sublist.map _)), ?_⟩
      intro other inside
      obtain ⟨⟨known, address⟩, found, rfl⟩ := List.mem_map.mp (perm.mem_iff.mp inside)
      obtain ⟨listed, same⟩ := List.mem_filter.mp found
      have same : address = source := by simpa using same
      subst same
      exact ⟨List.mem_map.mpr ⟨_, listed, rfl⟩, fun queued => apart known queued listed⟩
    · refine ⟨List.nodup_singleton session, ?_⟩
      intro other inside
      rw [List.mem_singleton.mp inside]
      exact ⟨watched, new nonzero⟩
    · simp
  refine ⟨waits.frame rfl rfl rfl (fun _ _ calling => calling), ?_, ?_, pending.wakes,
    pending.wakesOnce⟩
  · intro other inside
    rcases List.mem_append.mp inside with old | added
    · exact pending.errors other old
    · exact (joins.2 other added).1
  · refine List.nodup_append.mpr ⟨pending.errorsOnce, joins.1, ?_⟩
    intro other old again added same
    exact (joins.2 again added).2 (same ▸ old)

theorem finish_draining {s : Service} (waits : Waits s) (pending : Pending s) (co : Nat)
    (here : s.place co = .running) : Draining (s.finish co) := by
  refine .wakeups (waits.frame rfl rfl rfl ?_) (pending.frame rfl rfl rfl rfl) rfl
  exact calling_update .pooled (by simp [here])

theorem receive_draining {s t : Service} (sound : Sound s) (draining : Draining s)
    (idle : s.mode = .idle) (action : Action) (taken : s.receive action = some t) :
    Draining t := by
  have tables := sound.scheduled.toTables
  have quiet := draining.idle idle
  obtain ⟨waits, pending, _, _, _⟩ := draining
  cases action with
  | response session =>
    simp only [Service.receive] at taken
    split at taken
    case h_1 =>
      simp only [Option.some.injEq] at taken
      exact taken ▸ .unwind waits quiet
    case h_2 broken =>
      simp only [Option.some.injEq] at taken
      exact taken ▸ .unwind (waits.setEntry session none (by simp [broken])) quiet
    case h_3 co found =>
      simp only [Option.some.injEq] at taken
      subst taken
      have continued := resume_continued tables waits session co 0 found none (by simp)
      refine .running continued.waits (.of_quiet ?_) co continued.mode
      rw [Service.quiet, continued.errorQueue, continued.wakeupSession]
      exact quiet
  | request session source known unpacks =>
    simp only [Service.receive] at taken
    cases known with
    | false =>
      simp only [Bool.false_eq_true, if_false, Option.some.injEq] at taken
      exact taken ▸ .unwind waits quiet
    | true =>
      have created := coCreate_created tables .fresh
      generalize (s.coCreate .fresh).1 = co at created taken
      generalize (s.coCreate .fresh).2 = base at created taken
      have ready : base.place co = .fresh := by simp [created.moved]
      simp only [if_true, Option.some.injEq] at taken
      split at taken
      · refine taken ▸ ready_draining ((created.waits waits).withBooks _) ?_ co 0 (.inl ready)
        exact (created.pending pending).withBooks _
      · refine taken ▸ .unwind ((created.waits waits).withBooks _) ?_
        obtain ⟨pool, coroutines, _, frame⟩ := created.frame
        rw [frame]
        exact quiet
  | error session source order =>
    simp only [Service.receive] at taken
    have created := coCreate_created tables .fresh
    generalize (s.coCreate .fresh).1 = co at created taken
    generalize (s.coCreate .fresh).2 = base at created taken
    have ready : base.place co = .fresh := by simp [created.moved]
    obtain ⟨dispatched, told, rfl⟩ := Option.map_eq_some_iff.mp taken
    have started := ready_draining
      ((created.waits waits).withBooks (base.toBooks.start co session source))
      ((created.pending pending).withBooks _) co 0 (.inl ready)
    obtain ⟨pool, coroutines, _, frame⟩ := created.frame
    have plain := resume_ready (s := { base with toBooks := base.toBooks.start co session source })
      co 0 (.inl ready)
    rw [plain] at started told
    have empty : base.errorQueue = [] := by
      rw [frame]
      exact quiet.1
    obtain ⟨waits, pending⟩ := errorDispatch_pending started.waits started.pending session source
      order (by simp [Service.setPlace, empty]) (by simp [Service.setPlace, empty]) told
    refine finish_draining waits pending co ?_
    obtain ⟨dead, queue, rfl, _⟩ := errorDispatch_eq session source order told
    simp [Service.setPlace]
  | _ => simp [Service.receive] at taken

theorem ret_returns {b : Books} {co : Nat} (returns : b.returns co) : (b.ret co).2 = true := by
  obtain ⟨unanswered, known⟩ := returns
  unfold Books.ret
  rw [unanswered]
  simp only
  split
  · contradiction
  · split <;> rfl

theorem response_grants {b : Books} {co : Nat} (grants : b.grants co) :
    (b.response co).2 = true := by
  obtain ⟨unanswered, address, known, watched⟩ := grants
  unfold Books.response
  rw [unanswered]
  simp only [known]
  split
  · contradiction
  · rfl

theorem yield_draining {s t : Service} (waits : Waits s) (pending : Pending s) (co session : Nat)
    (here : s.place co = .running) (unused : s.sessionIdCoroutine session = none)
    (place : Place) (moved : t.place = Function.update s.place co place)
    (entry : t.sessionIdCoroutine = Function.update s.sessionIdCoroutine session (some (.thread co)))
    (watching : t.watchingSession = s.watchingSession ∨
      place = .calling session ∧
        ∃ address, t.watchingSession = (session, address) ::
          s.watchingSession.filter fun entry => entry.1 ≠ session)
    (sleep : t.sleepSession = s.sleepSession ∨
      t.sleepSession = Function.update s.sleepSession co (some session))
    (errors : t.errorQueue = s.errorQueue) (wakes : t.wakeupSession = s.wakeupSession)
    (mode : t.mode = .wakeups) : Draining t := by
  obtain ⟨watch, once, asleep⟩ := waits
  have new : session ∉ s.watched := by
    intro inside
    obtain ⟨caller, found, _⟩ := watch session inside
    rw [unused] at found
    contradiction
  have watched : t.watched = s.watched ∨
      place = .calling session ∧ t.watched = session :: s.watched := by
    rcases watching with same | ⟨calling, address, grown⟩
    · exact .inl (by rw [Service.watched, same]; rfl)
    · refine .inr ⟨calling, ?_⟩
      have whole : (s.watchingSession.filter fun entry => entry.1 ≠ session) = s.watchingSession := by
        refine List.filter_eq_self.mpr ?_
        intro pair inside
        simp only [decide_eq_true_eq]
        intro same
        exact new (List.mem_map.mpr ⟨pair, inside, same⟩)
      rw [Service.watched, grown, whole]
      rfl
  have kept : ∀ other ∈ s.watched, other ∈ t.watched := by
    intro other inside
    rcases watched with same | ⟨_, grown⟩
    · rw [same]
      exact inside
    · rw [grown]
      exact List.mem_cons_of_mem _ inside
  have old : ∀ other, other ≠ session → t.sessionIdCoroutine other = s.sessionIdCoroutine other := by
    intro other apart
    rw [entry, Function.update_of_ne apart]
  have waiting : ∀ other ∈ s.watched, ∃ caller,
      t.sessionIdCoroutine other = some (.thread caller) ∧ t.place caller = .calling other := by
    intro other inside
    obtain ⟨caller, found, calling⟩ := watch other inside
    refine ⟨caller, ?_, moved ▸ calling_update place (by simp [here]) caller other calling⟩
    rw [old other (fun same => new (same ▸ inside))]
    exact found
  have sleeping : ∀ sleeper other, s.sleepSession sleeper = some other →
      t.sessionIdCoroutine other = some (.thread sleeper) := by
    intro sleeper other found
    have before := asleep sleeper other found
    have apart : other ≠ session := by
      intro same
      rw [same, unused] at before
      contradiction
    rw [old other apart]
    exact before
  refine .wakeups ⟨?_, ?_, ?_⟩ ⟨?_, ?_, ?_, ?_⟩ mode
  · intro other inside
    rcases watched with same | ⟨calling, grown⟩
    · exact waiting other (same ▸ inside)
    · rw [grown] at inside
      rcases List.mem_cons.mp inside with rfl | before
      · exact ⟨co, by simp [entry], by simp [moved, calling]⟩
      · exact waiting other before
  · rcases watched with same | ⟨_, grown⟩
    · rw [same]
      exact once
    · rw [grown]
      exact List.nodup_cons.mpr ⟨new, once⟩
  · intro sleeper other found
    rcases sleep with same | updated
    · exact sleeping sleeper other (same ▸ found)
    · rw [updated] at found
      by_cases is : sleeper = co
      · subst is
        simp only [Function.update_self, Option.some.injEq] at found
        simp [entry, found]
      · rw [Function.update_of_ne is] at found
        exact sleeping sleeper other found
  · intro other inside
    rw [errors] at inside
    exact kept other (pending.errors other inside)
  · rw [errors]
    exact pending.errorsOnce
  · intro sleeper inside
    rw [wakes] at inside
    have before := pending.wakes sleeper inside
    rcases sleep with same | updated
    · rw [same]
      exact before
    · rw [updated]
      by_cases is : sleeper = co
      · simp [is]
      · rw [Function.update_of_ne is]
        exact before
  · rw [wakes]
    exact pending.wakesOnce

theorem perform_draining {s t : Service} (sound : Sound s) (draining : Draining s) (co : Nat)
    (running : s.mode = .running co) (action : Action) (drains : Drains s action)
    (taken : s.perform co action = some t) : Draining t := by
  have tables := sound.scheduled.toTables
  have here := sound.scheduled.running co running
  have moves (place : Place) := @calling_update s.place co place (by simp [here])
  obtain ⟨waits, pending, _, _, _⟩ := draining
  cases action with
  | call session address =>
    simp only [Service.perform, Option.some.injEq] at taken
    subst taken
    exact yield_draining waits pending co session here drains (.calling session) rfl rfl
      (.inr ⟨rfl, address, rfl⟩) (.inl rfl) rfl rfl rfl
  | sleep session =>
    simp only [Service.perform, Option.some.injEq] at taken
    subst taken
    exact yield_draining waits pending co session here drains (.sleeping session) rfl rfl
      (.inl rfl) (.inr rfl) rfl rfl rfl
  | wait session =>
    simp only [Service.perform, Option.some.injEq] at taken
    subst taken
    exact yield_draining waits pending co session here drains (.waiting session) rfl rfl
      (.inl rfl) (.inr rfl) rfl rfl rfl
  | ret =>
    simp only [Service.perform, Option.some.injEq] at taken
    split at taken
    case isTrue => exact taken ▸ .running (waits.withBooks _) (pending.withBooks _) co running
    case isFalse stops =>
      rcases drains co running with returns | quiet
      · exact absurd (ret_returns returns) stops
      · subst taken
        exact Draining.unwind (s := { s.setPlace co .stuck with toBooks := (s.toBooks.ret co).1 })
          (waits.frame rfl rfl rfl (moves .stuck)) quiet
  | askResponse =>
    simp only [Service.perform, Option.some.injEq] at taken
    split at taken
    case isTrue => exact taken ▸ .running (waits.withBooks _) (pending.withBooks _) co running
    case isFalse stops =>
      rcases drains co running with grants | quiet
      · exact absurd (response_grants grants) stops
      · subst taken
        exact Draining.unwind
          (s := { s.setPlace co .stuck with toBooks := (s.toBooks.response co).1 })
          (waits.frame rfl rfl rfl (moves .stuck)) quiet
  | test k =>
    simp only [Service.perform, Option.some.injEq] at taken
    exact taken ▸ .running (waits.withBooks _) (pending.withBooks _) co running
  | respond k ok packs =>
    simp only [Service.perform, Option.some.injEq] at taken
    exact taken ▸ .running (waits.withBooks _) (pending.withBooks _) co running
  | wakeup other =>
    simp only [Service.perform, Option.some.injEq] at taken
    split at taken
    case isTrue fits =>
      subst taken
      refine .running (waits.frame rfl rfl rfl (fun _ _ calling => calling)) ?_ co running
      refine ⟨pending.errors, pending.errorsOnce, ?_, ?_⟩
      · intro sleeper inside
        rcases List.mem_append.mp inside with old | new
        · exact pending.wakes sleeper old
        · rw [List.mem_singleton.mp new]
          exact Option.isSome_iff_ne_none.mp fits.1
      · refine List.nodup_append.mpr ⟨pending.wakesOnce, List.nodup_singleton _, ?_⟩
        intro sleeper old again new same
        rw [List.mem_singleton.mp new] at same
        exact fits.2 (same ▸ old)
    case isFalse =>
      exact taken ▸ .running waits pending co running
  | term address order =>
    obtain ⟨waits, pending⟩ := errorDispatch_pending waits pending 0 address order drains (by simp)
      taken
    refine .running waits pending co ?_
    obtain ⟨dead, queue, rfl, _⟩ := errorDispatch_eq 0 address order taken
    exact running
  | fork =>
    simp only [Service.perform, Option.some.injEq] at taken
    subst taken
    have created := coCreate_created tables .forked
    have waits := created.waits waits
    have pending := created.pending pending
    exact .running (waits.frame rfl rfl rfl (fun _ _ calling => calling))
      (pending.frame rfl rfl rfl rfl) co (created.mode.trans running)
  | timeout session =>
    simp only [Service.perform] at taken
    split at taken
    case isTrue unused =>
      simp only [Option.some.injEq] at taken
      subst taken
      have created := coCreate_created tables (.due session)
      have still : (s.coCreate (.due session)).2.sessionIdCoroutine session = none := by
        obtain ⟨pool, coroutines, _, frame⟩ := created.frame
        rw [frame]
        exact unused
      refine .running ((created.waits waits).setEntry session _ (by simp [still])) ?_ co
        (created.mode.trans running)
      exact (created.pending pending).frame rfl rfl rfl rfl
    case isFalse =>
      simp only [Option.some.injEq] at taken
      subst taken
      have created := coCreate_created tables .fresh
      exact .running (created.waits waits) (created.pending pending) co (created.mode.trans running)
  | finish =>
    simp only [Service.perform, Option.some.injEq] at taken
    exact taken ▸ finish_draining waits pending co here
  | raise =>
    simp only [Service.perform, Option.some.injEq] at taken
    subst taken
    exact Draining.unwind (s := { s.setPlace co .dead with toBooks := s.toBooks.fail co })
      (waits.frame rfl rfl rfl (moves .dead)) drains
  | exit =>
    simp only [Service.perform, Option.some.injEq] at taken
    subst taken
    exact .back (waits.frame rfl rfl rfl (moves .stuck)) (pending.frame rfl rfl rfl rfl) drains.1
      drains.2
  | yield =>
    simp only [Service.perform, Option.some.injEq] at taken
    subst taken
    exact .back (waits.frame rfl rfl rfl (moves .stuck)) (pending.frame rfl rfl rfl rfl) drains.1
      drains.2
  | _ => simp [Service.perform] at taken

theorem wake_draining {s : Service} (tables : Tables s) (waits : Waits s) (pending : Pending s)
    (co session depth : Nat) (found : s.sleepSession co = some session) :
    Draining ((Service.setEntry { s with wakeupSession := s.wakeupSession.erase co } session
      (some .broken)).resume co depth) := by
  have erased : Tables { s with wakeupSession := s.wakeupSession.erase co } :=
    tables.frame rfl rfl rfl rfl rfl rfl
  have still : Waits { s with wakeupSession := s.wakeupSession.erase co } :=
    waits.frame rfl rfl rfl (fun _ _ calling => calling)
  have known := waits.asleep co session found
  have continued := resume_continued erased still session co depth known (some .broken) (by simp)
  refine .running continued.waits ⟨?_, ?_, ?_, ?_⟩ co continued.mode
  · intro other inside
    rw [continued.errorQueue] at inside
    have watched := pending.errors other inside
    refine continued.watched other watched ?_
    intro same
    obtain ⟨caller, entry, calling⟩ := waits.watch other watched
    rw [same, known, Option.some.injEq, Waiter.thread.injEq] at entry
    have sleeps := tables.sleep co session found
    rw [entry, calling] at sleeps
    exact sleeps
  · rw [continued.errorQueue]
    exact pending.errorsOnce
  · intro sleeper inside
    rw [continued.wakeupSession] at inside
    have apart : sleeper ≠ co := by
      intro same
      exact pending.wakesOnce.not_mem_erase (same ▸ inside)
    rw [continued.sleep sleeper apart]
    exact pending.wakes sleeper (List.mem_of_mem_erase inside)
  · rw [continued.wakeupSession]
    exact pending.wakesOnce.erase co

theorem drain_resumes {s : Service} (tables : Tables s) (draining : Draining s)
    (mode : s.mode = .errors) (session : Nat) (rest : List Nat)
    (queue : s.errorQueue = session :: rest) :
    ∃ co next, s.sessionIdCoroutine session = some (.thread co) ∧ s.place co = .calling session ∧
      s.step .drain = some next ∧ Draining next ∧ next.mode = .running co ∧
      next.errorQueue = rest ∧ session ∉ rest ∧ next.sessionIdCoroutine session = none ∧
      session ∉ next.watched := by
  have awake := draining.draining mode
  obtain ⟨waits, pending, _, _, _⟩ := draining
  obtain ⟨co, known, calling⟩ := waits.watch session (pending.errors session (by simp [queue]))
  have once := pending.errorsOnce
  rw [queue, List.nodup_cons] at once
  have shorter : Tables { s with errorQueue := rest } := tables.frame rfl rfl rfl rfl rfl rfl
  have still : Waits { s with errorQueue := rest } :=
    waits.frame rfl rfl rfl (fun _ _ calling => calling)
  have continued := resume_continued shorter still session co s.depth known none (by simp)
  have empty := continued.wakeupSession.trans awake
  refine ⟨co, _, known, calling, ?_, ?_, continued.mode, continued.errorQueue, once.1, ?_,
    continued.unwatched⟩
  · simp only [Service.step, mode, queue, known]
    rfl
  · refine .running continued.waits ⟨?_, ?_, ?_, ?_⟩ co continued.mode
    · intro other inside
      rw [continued.errorQueue] at inside
      refine continued.watched other (pending.errors other (by simp [queue, inside])) ?_
      intro same
      exact once.1 (same ▸ inside)
    · rw [continued.errorQueue]
      exact once.2
    · rw [empty]
      simp
    · rw [empty]
      exact List.nodup_nil
  · simp [Service.resume, Service.setEntry, Service.setPlace, calling]

theorem step_draining {s t : Service} (sound : Sound s) (draining : Draining s) (action : Action)
    (drains : Drains s action) (taken : s.step action = some t) : Draining t := by
  have tables := sound.scheduled.toTables
  unfold Service.step at taken
  split at taken
  case h_1 mode =>
    split at taken
    · contradiction
    · exact receive_draining sound draining mode _ taken
  case h_2 co running => exact perform_draining sound draining co running _ drains taken
  case h_3 co mode =>
    split at taken
    case isTrue listed =>
      obtain ⟨waits, pending, _, _, _⟩ := draining
      simp only at taken
      split at taken
      case h_1 awake => exact absurd awake (pending.wakes co listed)
      case h_2 session found =>
        simp only [Option.some.injEq] at taken
        exact taken ▸ wake_draining tables waits pending co session _ found
    case isFalse => contradiction
  case h_4 =>
    split at taken
    case isTrue empty =>
      simp only [Option.some.injEq] at taken
      subst taken
      obtain ⟨waits, pending, _, _, _⟩ := draining
      exact ⟨waits.frame rfl rfl rfl (fun _ _ calling => calling), pending.frame rfl rfl rfl rfl,
        by simp, by simp, fun _ => empty⟩
    case isFalse => contradiction
  case h_5 mode =>
    split at taken
    case h_1 empty =>
      simp only [Option.some.injEq] at taken
      exact taken ▸ .back draining.waits draining.pending (draining.draining mode) (fun _ => empty)
    case h_2 session rest queue =>
      obtain ⟨co, next, known, _, step, after, _⟩ :=
        drain_resumes tables draining mode session rest queue
      simp only [Service.step, mode, queue] at step
      rw [step, Option.some.injEq] at taken
      exact taken ▸ after
  case h_6 co mode =>
    split at taken
    case isTrue inside =>
      simp only [Option.some.injEq] at taken
      subst taken
      obtain ⟨waits, pending, _, _, _⟩ := draining
      have still : Waits { s with forkQueue := s.forkQueue.erase co } :=
        waits.frame rfl rfl rfl (fun _ _ calling => calling)
      exact ready_draining still (pending.frame rfl rfl rfl rfl) co 0
        (.inr (tables.forks co inside))
    case isFalse => contradiction
  case h_7 mode =>
    split at taken
    case isTrue =>
      simp only [Option.some.injEq] at taken
      subst taken
      have quiet := draining.forks mode
      exact ⟨draining.waits.frame rfl rfl rfl (fun _ _ calling => calling), .of_quiet quiet,
        fun _ => quiet, fun _ => quiet, fun _ => quiet.2⟩
    case isFalse => contradiction
  case h_8 => contradiction

theorem start_draining (session : Nat) : Draining (Service.start session) := by
  refine ⟨⟨?_, ?_, ?_⟩, .of_quiet ⟨rfl, rfl⟩, fun _ => ⟨rfl, rfl⟩, fun _ => ⟨rfl, rfl⟩, fun _ => rfl⟩
  · simp [Service.start, Service.watched]
  · simp [Service.start, Service.watched]
  · simp [Service.start]

def twoCallersFail : List Action :=
  [.request 1 7 true true, .call 10 9, .awake, .drain, .done,
    .request 2 7 true true, .call 11 9, .awake, .drain, .done,
    .error 0 9 [11, 10], .awake]

end Pskynet.Skynet
