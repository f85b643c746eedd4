import Pskynet.Skynet.Service

set_option autoImplicit false

namespace Pskynet.Skynet

def Place.awaits (session : Nat) : Place → Prop
  | .due other | .calling other | .sleeping other | .waiting other => other = session
  | _ => False

def Place.sleeps (session : Nat) : Place → Prop
  | .sleeping other | .waiting other => other = session
  | _ => False

structure Tables (s : Service) : Prop where
  pool : ∀ co ∈ s.coroutinePool, s.place co = .pooled
  poolOnce : s.coroutinePool.Nodup
  unborn : ∀ co, s.coroutines ≤ co → s.place co = .unborn
  entry : ∀ session co, s.sessionIdCoroutine session = some (.thread co) →
    (s.place co).awaits session
  sleep : ∀ co session, s.sleepSession co = some session → (s.place co).sleeps session
  forks : ∀ co ∈ s.forkQueue, s.place co = .forked
  forksOnce : s.forkQueue.Nodup

structure Scheduled (s : Service) : Prop extends Tables s where
  running : ∀ co, s.mode = .running co → s.place co = .running

theorem Tables.frame {s t : Service} (tables : Tables s) (pool : t.coroutinePool = s.coroutinePool)
    (coroutines : t.coroutines = s.coroutines) (place : t.place = s.place)
    (entry : t.sessionIdCoroutine = s.sessionIdCoroutine) (sleep : t.sleepSession = s.sleepSession)
    (forks : t.forkQueue = s.forkQueue) : Tables t := by
  obtain ⟨a, b, c, d, e, f, g⟩ := tables
  constructor <;> simp only [pool, coroutines, place, entry, sleep, forks] <;> assumption

structure Loose (s : Service) (co : Nat) : Prop where
  pool : co ∉ s.coroutinePool
  born : co < s.coroutines
  entry : ∀ session, s.sessionIdCoroutine session ≠ some (.thread co)
  sleep : s.sleepSession co = none
  forks : co ∉ s.forkQueue

theorem Tables.noEntry {s : Service} (tables : Tables s) (co : Nat)
    (here : ∀ session, ¬(s.place co).awaits session) (session : Nat) :
    s.sessionIdCoroutine session ≠ some (.thread co) := by
  intro found
  exact here session (tables.entry session co found)

theorem Tables.noSleep {s : Service} (tables : Tables s) (co : Nat)
    (here : ∀ session, ¬(s.place co).sleeps session) : s.sleepSession co = none := by
  cases asleep : s.sleepSession co with
  | none => rfl
  | some session => exact absurd (tables.sleep co session asleep) (here session)

theorem Tables.loose {s : Service} (tables : Tables s) (co : Nat) (here : s.place co = .running) :
    Loose s co := by
  refine ⟨?_, ?_, ?_, ?_, ?_⟩
  · intro inside
    have pooled := tables.pool co inside
    rw [here] at pooled
    contradiction
  · by_contra beyond
    have unborn := tables.unborn co (not_lt.mp beyond)
    rw [here] at unborn
    contradiction
  · exact tables.noEntry co (by simp [here, Place.awaits])
  · exact tables.noSleep co (by simp [here, Place.sleeps])
  · intro inside
    have forked := tables.forks co inside
    rw [here] at forked
    contradiction

theorem Tables.setPlace {s : Service} (tables : Tables s) (co : Nat) (place : Place)
    (loose : Loose s co) : Tables (s.setPlace co place) := by
  obtain ⟨pool, poolOnce, unborn, entry, sleep, forks, forksOnce⟩ := tables
  obtain ⟨noPool, born, noEntry, noSleep, noFork⟩ := loose
  constructor <;> simp only [Service.setPlace] <;> grind -ring -linarith [Function.update_apply]

theorem setEntry_none {s : Service} (tables : Tables s) (session : Nat) (entry : Option Waiter)
    (free : ∀ co, entry ≠ some (.thread co)) : Tables (s.setEntry session entry) := by
  obtain ⟨pool, poolOnce, unborn, known, sleep, forks, forksOnce⟩ := tables
  constructor <;> simp only [Service.setEntry] <;> grind -ring -linarith [Function.update_apply]

-- A place of a coroutine that `co_create` may hand out.
def Place.free : Place → Bool
  | .unborn | .pooled => true
  | _ => false

-- `co_create` touches nothing but the pool and the coroutine it hands out.
structure Created (s : Service) (place : Place) (co : Nat) (t : Service) : Prop where
  tables : Tables t
  loose : Loose t co
  free : (s.place co).free
  moved : t.place = Function.update s.place co place
  frame : ∃ pool coroutines, s.coroutines ≤ coroutines ∧
    t = { s.setPlace co place with coroutinePool := pool, coroutines := coroutines }

theorem coCreate_created {s : Service} (tables : Tables s) (place : Place) :
    Created s place (s.coCreate place).1 (s.coCreate place).2 := by
  have noEntry := tables.noEntry
  have noSleep := tables.noSleep
  obtain ⟨pool, poolOnce, unborn, entry, sleep, forks, forksOnce⟩ := tables
  unfold Service.coCreate
  cases last : s.coroutinePool.getLast? with
  | none =>
    have free := unborn s.coroutines (le_refl _)
    have nobody : s.coroutinePool = [] := List.getLast?_eq_none_iff.mp last
    refine ⟨?_, ?_, by simp [free, Place.free], rfl, _, _, Nat.le_succ _, rfl⟩
    · constructor <;> simp only [Service.setPlace] <;>
        grind -ring -linarith [Function.update_apply, Place.awaits, Place.sleeps]
    · refine ⟨by simp [nobody, Service.setPlace], Nat.lt_succ_self _, ?_, ?_, ?_⟩
      · exact noEntry _ (by simp [free, Place.awaits])
      · exact noSleep _ (by simp [free, Place.sleeps])
      · intro inside
        have forked := forks _ inside
        rw [free] at forked
        contradiction
  | some co =>
    obtain ⟨rest, split⟩ := List.getLast?_eq_some_iff.mp last
    have inside : co ∈ s.coroutinePool := by simp [split]
    have pooled := pool co inside
    have short : s.coroutinePool.dropLast = rest := by simp [split]
    have only : rest.Nodup ∧ co ∉ rest := by
      rw [split, List.nodup_append] at poolOnce
      exact ⟨poolOnce.1, fun again => poolOnce.2.2 co again co (by simp) rfl⟩
    refine ⟨?_, ?_, by simp [pooled, Place.free], rfl, _, _, le_refl _, rfl⟩
    · constructor <;> simp only [Service.setPlace, short] <;>
        grind -ring -linarith [Function.update_apply, Place.awaits, Place.sleeps]
    · refine ⟨by simpa [short] using only.2, ?_, ?_, ?_, ?_⟩
      · by_contra beyond
        rw [unborn co (not_lt.mp beyond)] at pooled
        contradiction
      · exact noEntry _ (by simp [pooled, Place.awaits])
      · exact noSleep _ (by simp [pooled, Place.sleeps])
      · intro inside
        rw [forks _ inside] at pooled
        contradiction

theorem Created.books {s t : Service} {place : Place} {co : Nat} (created : Created s place co t) :
    t.toBooks = s.toBooks := by
  obtain ⟨pool, coroutines, _, frame⟩ := created.frame
  rw [frame]
  rfl

theorem Created.mode {s t : Service} {place : Place} {co : Nat} (created : Created s place co t) :
    t.mode = s.mode := by
  obtain ⟨pool, coroutines, _, frame⟩ := created.frame
  rw [frame]
  rfl

theorem Created.still {s t : Service} {place : Place} {co other : Nat}
    (created : Created s place co t) (apart : other ≠ co) : t.place other = s.place other := by
  rw [created.moved, Function.update_of_ne apart]

theorem Created.grows {s t : Service} {place : Place} {co : Nat} (created : Created s place co t) :
    s.coroutines ≤ t.coroutines := by
  obtain ⟨pool, coroutines, grows, frame⟩ := created.frame
  rw [frame]
  exact grows

def Place.suspended : Place → Bool
  | .fresh | .due _ | .forked | .calling _ | .sleeping _ | .waiting _ => true
  | .unborn | .running | .stuck | .pooled | .dead => false

theorem Place.suspended_of_awaits (place : Place) (session : Nat) (awaits : place.awaits session) :
    place.suspended := by
  cases place <;> first | rfl | contradiction

theorem Place.suspended_of_sleeps (place : Place) (session : Nat) (sleeps : place.sleeps session) :
    place.suspended := by
  cases place <;> first | rfl | contradiction

structure Resumed (s : Service) (co : Nat) (t : Service) : Prop where
  scheduled : Scheduled t
  books : t.toBooks = s.toBooks
  mode : t.mode = .running co
  place : t.place = Function.update s.place co .running
  coroutines : t.coroutines = s.coroutines

theorem resume_resumed {s : Service} (tables : Tables s) (co depth : Nat)
    (here : (s.place co).suspended)
    (entry : ∀ session, s.sessionIdCoroutine session ≠ some (.thread co))
    (forks : co ∉ s.forkQueue) : Resumed s co (s.resume co depth) := by
  obtain ⟨pool, poolOnce, unborn, known, sleep, forked, forksOnce⟩ := tables
  unfold Service.resume
  cases place : s.place co with
  | unborn | running | stuck | pooled | dead =>
    rw [place] at here
    contradiction
  | fresh | due session | forked | calling session | sleeping session | waiting session =>
    refine ⟨⟨?_, ?_⟩, rfl, rfl, rfl, rfl⟩
    · constructor <;> simp only [Service.setPlace, Service.setEntry] <;>
        grind -ring -linarith [Function.update_apply, Place.awaits, Place.sleeps]
    · simp only [Service.setPlace, Service.setEntry]
      grind -ring -linarith

theorem Scheduled.frame {s t : Service} (scheduled : Scheduled s)
    (pool : t.coroutinePool = s.coroutinePool) (coroutines : t.coroutines = s.coroutines)
    (place : t.place = s.place) (entry : t.sessionIdCoroutine = s.sessionIdCoroutine)
    (sleep : t.sleepSession = s.sleepSession) (forks : t.forkQueue = s.forkQueue)
    (mode : t.mode = s.mode) : Scheduled t := by
  refine ⟨scheduled.toTables.frame pool coroutines place entry sleep forks, ?_⟩
  rw [mode, place]
  exact scheduled.running

theorem Tables.parked {s : Service} (tables : Tables s) (mode : ∀ co, s.mode ≠ .running co) :
    Scheduled s :=
  ⟨tables, fun co running => absurd running (mode co)⟩

theorem Tables.unwind {s : Service} (tables : Tables s) : Scheduled s.unwind :=
  Tables.parked (tables.frame rfl rfl rfl rfl rfl rfl) (by simp [Service.unwind])

theorem Tables.back {s : Service} (tables : Tables s) : Scheduled s.back := by
  unfold Service.back
  split
  · exact Tables.parked (tables.frame rfl rfl rfl rfl rfl rfl) (by simp)
  · exact Tables.parked (tables.frame rfl rfl rfl rfl rfl rfl) (by simp)

theorem Tables.withBooks {s : Service} (tables : Tables s) (books : Books) :
    Tables { s with toBooks := books } :=
  tables.frame rfl rfl rfl rfl rfl rfl

theorem awaiting_resumed {s : Service} (tables : Tables s) (session co depth : Nat)
    (awaits : (s.place co).awaits session) (entry : Option Waiter)
    (free : ∀ other, entry ≠ some (.thread other)) :
    Resumed (s.setEntry session entry) co ((s.setEntry session entry).resume co depth) := by
  refine resume_resumed (setEntry_none tables session entry free) co depth ?_ ?_ ?_
  · exact Place.suspended_of_awaits _ session awaits
  · intro other
    by_cases same : other = session
    · subst same
      simpa [Service.setEntry] using free co
    · simp only [Service.setEntry, Function.update_of_ne same]
      intro found
      have other_awaits := tables.entry other co found
      cases place : s.place co <;> simp_all [Place.awaits]
  · intro inside
    have forked := tables.forks co inside
    simp [forked, Place.awaits] at awaits

theorem Place.awaits_of_sleeps (place : Place) (session : Nat) (sleeps : place.sleeps session) :
    place.awaits session := by
  cases place <;> first | exact sleeps | contradiction

theorem errorDispatch_eq {s t : Service} (session source : Nat) (order : List Nat)
    (told : s.errorDispatch session source order = some t) :
    ∃ dead queue, t = { s with deadService := dead, errorQueue := s.errorQueue ++ queue } ∧
      (session = 0 ∧ queue = order ∧
          queue.Perm ((s.watchingSession.filter fun entry => entry.2 = source).map Prod.fst) ∨
        session ≠ 0 ∧ queue = [session] ∧ session ∈ s.watchingSession.map Prod.fst ∨
        session ≠ 0 ∧ queue = []) := by
  unfold Service.errorDispatch at told
  split at told
  case isTrue zero =>
    by_cases watched : (s.watchingService source).isSome
    · simp only [watched, if_true] at told
      split at told
      case isTrue perm =>
        exact ⟨_, order, (Option.some.inj told).symm, .inl ⟨zero, rfl, List.isPerm_iff.mp perm⟩⟩
      case isFalse => contradiction
    · simp only [watched] at told
      split at told
      case isTrue perm =>
        exact ⟨_, order, (Option.some.inj told).symm, .inl ⟨zero, rfl, List.isPerm_iff.mp perm⟩⟩
      case isFalse => contradiction
  case isFalse nonzero =>
    split at told
    case isTrue watched =>
      exact ⟨_, _, (Option.some.inj told).symm, .inr (.inl ⟨nonzero, rfl, watched⟩)⟩
    case isFalse =>
      refine ⟨s.deadService, [], ?_, .inr (.inr ⟨nonzero, rfl⟩)⟩
      simpa using (Option.some.inj told).symm

-- What a step does to the tables of the requests; `place` is where the coroutines are after it.
inductive Booked (s : Service) (place : Nat → Place) : Action → Books → Prop where
  | same (action : Action) : Booked s place action s.toBooks
  | started (session source : Nat) (unpacks : Bool)
      (busy : (place (s.coCreate .fresh).1).free = false) :
      Booked s place (.request session source true unpacks)
        (s.toBooks.start (s.coCreate .fresh).1 session source)
  | told (session source : Nat) (order : List Nat) (dead : Nat → Bool) :
      Booked s place (.error session source order)
        (Books.exit { s.toBooks.start (s.coCreate .fresh).1 session source with deadService := dead }
          (s.coCreate .fresh).1)
  | died (address : Nat) (order : List Nat) (dead : Nat → Bool) :
      Booked s place (.term address order) { s.toBooks with deadService := dead }
  | returned (co : Nat) (running : s.mode = .running co) : Booked s place .ret (s.toBooks.ret co).1
  | asked (co : Nat) (running : s.mode = .running co) :
      Booked s place .askResponse (s.toBooks.response co).1
  | tested (k : Nat) : Booked s place (.test k) (s.toBooks.test k)
  | responded (k : Nat) (ok packs : Bool) :
      Booked s place (.respond k ok packs) (s.toBooks.respond k ok packs)
  | finished (co : Nat) (running : s.mode = .running co) : Booked s place .finish (s.toBooks.exit co)
  | failed (co : Nat) (running : s.mode = .running co) : Booked s place .raise (s.toBooks.fail co)
  | left (co : Nat) (running : s.mode = .running co) :
      Booked s place .exit (s.toBooks.report s.coroutines)

structure Stepped (s : Service) (action : Action) (t : Service) : Prop where
  books : Booked s t.place action t.toBooks
  free : ∀ co, (t.place co).free →
    (s.place co).free ∨ s.mode = .running co ∧ t.toBooks = s.toBooks.exit co
  fresh : ∀ co, t.place co = .fresh →
    s.place co = .fresh ∨
      (s.place co).free ∧
        (t.toBooks = s.toBooks ∨ ∃ session source, action = .request session source true false)
  grows : s.coroutines ≤ t.coroutines

theorem Stepped.still {s t : Service} (action : Action) (books : Booked s t.place action t.toBooks)
    (place : t.place = s.place) (coroutines : t.coroutines = s.coroutines) :
    Stepped s action t := by
  refine ⟨books, ?_, ?_, coroutines.ge⟩
  · intro co free
    rw [place] at free
    exact .inl free
  · intro co fresh
    rw [place] at fresh
    exact .inl fresh

theorem Stepped.moved {s t : Service} (action : Action) (books : Booked s t.place action t.toBooks)
    (co : Nat) (place : Place) (moves : t.place = Function.update s.place co place)
    (busy : place.free = false) (old : place ≠ .fresh) (grows : s.coroutines ≤ t.coroutines) :
    Stepped s action t := by
  refine ⟨books, ?_, ?_, grows⟩
  · intro other free
    by_cases same : other = co
    · subst same
      simp [moves, busy] at free
    · simp only [moves, Function.update_of_ne same] at free
      exact .inl free
  · intro other fresh
    by_cases same : other = co
    · subst same
      simp [moves, old] at fresh
    · simp only [moves, Function.update_of_ne same] at fresh
      exact .inl fresh

theorem Resumed.stepped {s base t : Service} {co : Nat} (resumed : Resumed base co t)
    (action : Action) (books : base.toBooks = s.toBooks) (place : base.place = s.place)
    (coroutines : base.coroutines = s.coroutines) : Scheduled t ∧ Stepped s action t := by
  refine ⟨resumed.scheduled, Stepped.moved _ ?_ co .running ?_ rfl (by simp) ?_⟩
  · rw [resumed.books, books]
    exact .same action
  · rw [resumed.place, place]
  · rw [resumed.coroutines, coroutines]

theorem Created.resumed {s t : Service} {co : Nat} (created : Created s .fresh co t)
    (books : Books) :
    Resumed { t with toBooks := books } co (Service.resume { t with toBooks := books } co 0) := by
  have loose := created.loose
  refine resume_resumed (created.tables.withBooks books) _ 0 ?_ loose.entry loose.forks
  simp [created.moved, Place.suspended]

theorem Created.started {s t : Service} {co : Nat} (created : Created s .fresh co t)
    (action : Action) (books : Books)
    (booked : Booked s (Function.update s.place co .running) action books) :
    Scheduled (Service.resume { t with toBooks := books } co 0) ∧
      Stepped s action (Service.resume { t with toBooks := books } co 0) := by
  have resumed := created.resumed books
  have moved : (Service.resume { t with toBooks := books } co 0).place =
      Function.update s.place co .running := by
    rw [resumed.place]
    simp [created.moved]
  refine ⟨resumed.scheduled, Stepped.moved _ ?_ co .running moved rfl (by simp) ?_⟩
  · rw [resumed.books, moved]
    exact booked
  · rw [resumed.coroutines]
    exact created.grows

theorem Tables.finish {s : Service} (tables : Tables s) (co : Nat) (here : s.place co = .running) :
    Scheduled (s.finish co) := by
  have loose := tables.loose co here
  obtain ⟨pool, poolOnce, unborn, entry, sleep, forks, forksOnce⟩ :=
    tables.setPlace co .pooled loose
  refine Tables.parked ⟨?_, ?_, unborn, entry, sleep, forks, forksOnce⟩ (by simp [Service.finish])
  · intro other inside
    rcases List.mem_append.mp inside with old | new
    · exact pool other old
    · rw [List.mem_singleton.mp new]
      simp [Service.finish, Service.setPlace]
  · have apart : ∀ other ∈ s.coroutinePool, other ≠ co := by
      intro other inside same
      exact loose.pool (same ▸ inside)
    simpa [Service.finish, List.nodup_append, tables.poolOnce] using apart

theorem receive_stepped {s t : Service} (scheduled : Scheduled s) (action : Action)
    (taken : s.receive action = some t) : Scheduled t ∧ Stepped s action t := by
  have tables := scheduled.toTables
  cases action with
  | response session =>
    simp only [Service.receive] at taken
    split at taken
    case h_1 =>
      simp only [Option.some.injEq] at taken
      subst taken
      exact ⟨tables.unwind, Stepped.still _ (.same _) rfl rfl⟩
    case h_2 =>
      simp only [Option.some.injEq] at taken
      subst taken
      have freed := setEntry_none tables session none (by simp)
      exact ⟨freed.unwind, Stepped.still _ (.same _) rfl rfl⟩
    case h_3 co found =>
      simp only [Option.some.injEq] at taken
      subst taken
      have awaits := tables.entry session co found
      exact (awaiting_resumed tables session co 0 awaits none (by simp)).stepped _ rfl rfl rfl
  | request session source known unpacks =>
    simp only [Service.receive] at taken
    cases known with
    | false =>
      simp only [Bool.false_eq_true, if_false, Option.some.injEq] at taken
      subst taken
      exact ⟨tables.unwind, Stepped.still _ (.same _) rfl rfl⟩
    | true =>
      have created := coCreate_created tables .fresh
      have booked (place : Nat → Place) : (place (s.coCreate .fresh).1).free = false →
          Booked s place (.request session source true unpacks)
            (s.toBooks.start (s.coCreate .fresh).1 session source) :=
        .started session source unpacks
      generalize (s.coCreate .fresh).1 = co at created booked taken
      generalize (s.coCreate .fresh).2 = base at created taken
      simp only [if_true, Option.some.injEq, created.books] at taken
      cases unpacks with
      | true =>
        simp only [if_true] at taken
        exact taken ▸ created.started _ _ (booked _ (by simp [Place.free]))
      | false =>
        simp only [Bool.false_eq_true, if_false] at taken
        subst taken
        refine ⟨(created.tables.withBooks _).unwind, booked _ ?_, ?_, ?_, created.grows⟩
        · simp [Service.unwind, created.moved, Place.free]
        · intro other free
          by_cases same : other = co
          · exact .inl (same ▸ created.free)
          · exact .inl (created.still same ▸ free)
        · intro other fresh
          by_cases same : other = co
          · exact .inr ⟨same ▸ created.free, .inr ⟨session, source, rfl⟩⟩
          · exact .inl (created.still same ▸ fresh)
  | error session source order =>
    simp only [Service.receive] at taken
    have created := coCreate_created tables .fresh
    have booked (place : Nat → Place) (dead : Nat → Bool) :
        Booked s place (.error session source order)
          (Books.exit { s.toBooks.start (s.coCreate .fresh).1 session source with
            deadService := dead } (s.coCreate .fresh).1) :=
      .told session source order dead
    generalize (s.coCreate .fresh).1 = co at created booked taken
    generalize (s.coCreate .fresh).2 = base at created taken
    simp only [created.books] at taken
    obtain ⟨dispatched, told, rfl⟩ := Option.map_eq_some_iff.mp taken
    have resumed := created.resumed (s.toBooks.start co session source)
    obtain ⟨dead, queue, rfl, _⟩ := errorDispatch_eq session source order told
    generalize Service.resume _ co 0 = started at resumed
    have here : started.place co = .running := by simp [resumed.place]
    have tables : Tables { started with deadService := dead, errorQueue := started.errorQueue ++ queue } :=
      resumed.scheduled.toTables.frame rfl rfl rfl rfl rfl rfl
    refine ⟨tables.finish co here, ?_, ?_, ?_, ?_⟩
    · have same : started.toBooks = s.toBooks.start co session source := resumed.books
      simpa [Service.finish, same] using booked _ dead
    · intro other free
      by_cases same : other = co
      · exact .inl (same ▸ created.free)
      · simp [Service.finish, Service.setPlace, same, resumed.place, created.still same] at free
        exact .inl free
    · intro other fresh
      by_cases same : other = co
      · simp [Service.finish, Service.setPlace, same] at fresh
      · simp [Service.finish, Service.setPlace, same, resumed.place, created.still same] at fresh
        exact .inl fresh
    · have more := created.grows
      simpa [Service.finish, Service.setPlace, resumed.coroutines] using more
  | _ => simp [Service.receive] at taken

theorem Tables.setThread {s : Service} (tables : Tables s) (session co : Nat)
    (awaits : (s.place co).awaits session) :
    Tables (s.setEntry session (some (.thread co))) := by
  obtain ⟨pool, poolOnce, unborn, entry, sleep, forks, forksOnce⟩ := tables
  refine ⟨pool, poolOnce, unborn, ?_, sleep, forks, forksOnce⟩
  intro other waiter found
  by_cases same : other = session
  · subst same
    simp only [Service.setEntry, Function.update_self, Option.some.injEq, Waiter.thread.injEq]
      at found
    exact found ▸ awaits
  · simp only [Service.setEntry, Function.update_of_ne same] at found
    exact entry other waiter found

theorem Tables.setSleep {s : Service} (tables : Tables s) (session co : Nat)
    (sleeps : (s.place co).sleeps session) :
    Tables { s with sleepSession := Function.update s.sleepSession co (some session) } := by
  obtain ⟨pool, poolOnce, unborn, entry, sleep, forks, forksOnce⟩ := tables
  refine ⟨pool, poolOnce, unborn, entry, ?_, forks, forksOnce⟩
  intro other known found
  by_cases same : other = co
  · subst same
    simp only [Function.update_self, Option.some.injEq] at found
    exact found ▸ sleeps
  · simp only [Function.update_of_ne same] at found
    exact sleep other known found

theorem Tables.stick {s : Service} (tables : Tables s) (co : Nat) (here : s.place co = .running)
    (place : Place) : Tables (s.setPlace co place) :=
  tables.setPlace co place (tables.loose co here)

theorem suspended_stepped {s t : Service} (action : Action) (co : Nat) (place : Place)
    (tables : Tables t) (mode : t.mode = .wakeups) (books : t.toBooks = s.toBooks)
    (moves : t.place = Function.update s.place co place) (busy : place.suspended)
    (old : place ≠ .fresh) (coroutines : t.coroutines = s.coroutines) :
    Scheduled t ∧ Stepped s action t := by
  refine ⟨tables.parked (by simp [mode]), ?_⟩
  refine Stepped.moved action (books ▸ .same action) co place moves ?_ old coroutines.ge
  cases place <;> first | rfl | contradiction

theorem Scheduled.withBooks {s : Service} (scheduled : Scheduled s) (books : Books)
    (action : Action) (booked : Booked s s.place action books) :
    Scheduled { s with toBooks := books } ∧ Stepped s action { s with toBooks := books } :=
  ⟨scheduled.frame rfl rfl rfl rfl rfl rfl rfl, Stepped.still action booked rfl rfl⟩

theorem stuck_stepped {s : Service} (tables : Tables s) (co : Nat) (here : s.place co = .running)
    (books : Books) (action : Action)
    (booked : Booked s (s.setPlace co .stuck).place action books) :
    Scheduled { (s.setPlace co .stuck).unwind with toBooks := books } ∧
      Stepped s action { (s.setPlace co .stuck).unwind with toBooks := books } := by
  have stuck := ((tables.stick co here .stuck).withBooks books).unwind
  exact ⟨stuck, Stepped.moved action booked co .stuck rfl rfl (by simp) (le_refl _)⟩

theorem Created.scheduled {s t : Service} {place : Place} {co : Nat} (created : Created s place co t)
    (scheduled : Scheduled s) : Scheduled t := by
  refine ⟨created.tables, ?_⟩
  intro other running
  rw [created.mode] at running
  have here := scheduled.running other running
  have apart : other ≠ co := by
    intro same
    have free := created.free
    rw [← same, here] at free
    contradiction
  rw [created.still apart]
  exact here

theorem Created.stepped {s base t : Service} {place : Place} {co : Nat}
    (created : Created s place co base) (action : Action)
    (books : t.toBooks = base.toBooks) (moved : t.place = base.place)
    (coroutines : t.coroutines = base.coroutines) : Stepped s action t := by
  have same : t.toBooks = s.toBooks := books.trans created.books
  refine ⟨same ▸ .same action, ?_, ?_, ?_⟩
  · intro other free
    rw [moved] at free
    by_cases new : other = co
    · exact .inl (new ▸ created.free)
    · exact .inl (created.still new ▸ free)
  · intro other fresh
    rw [moved] at fresh
    by_cases new : other = co
    · exact .inr ⟨new ▸ created.free, .inl same⟩
    · exact .inl (created.still new ▸ fresh)
  · rw [coroutines]
    exact created.grows

theorem Created.queued {s t : Service} {co : Nat} (created : Created s .forked co t)
    (scheduled : Scheduled s) : Scheduled { t with forkQueue := t.forkQueue ++ [co] } := by
  obtain ⟨⟨pool, poolOnce, unborn, entry, sleep, forks, forksOnce⟩, running⟩ :=
    created.scheduled scheduled
  refine ⟨⟨pool, poolOnce, unborn, entry, sleep, ?_, ?_⟩, running⟩
  · intro other inside
    rcases List.mem_append.mp inside with old | new
    · exact forks other old
    · simp [List.mem_singleton.mp new, created.moved]
  · have apart : ∀ other ∈ t.forkQueue, other ≠ co := by
      intro other inside same
      exact created.loose.forks (same ▸ inside)
    simpa [List.nodup_append, forksOnce] using apart

theorem back_frame (s : Service) :
    ∃ mode depth, s.back = { s with mode := mode, depth := depth } := by
  unfold Service.back
  split
  case h_1 => exact ⟨.forks, s.depth, rfl⟩
  case h_2 depth _ => exact ⟨.errors, depth, rfl⟩

theorem back_stepped {s t : Service} (action : Action) (co : Nat) (tables : Tables t)
    (booked : Booked s t.place action t.toBooks) (moved : t.place = Function.update s.place co .stuck)
    (coroutines : t.coroutines = s.coroutines) : Scheduled t.back ∧ Stepped s action t.back := by
  refine ⟨tables.back, ?_⟩
  obtain ⟨mode, depth, frame⟩ := back_frame t
  rw [frame]
  exact Stepped.moved action booked co .stuck moved rfl (by simp) coroutines.ge

theorem perform_stepped {s t : Service} (scheduled : Scheduled s) (co : Nat)
    (running : s.mode = .running co) (action : Action) (taken : s.perform co action = some t) :
    Scheduled t ∧ Stepped s action t := by
  have tables := scheduled.toTables
  have here := scheduled.running co running
  cases action with
  | call session address =>
    simp only [Service.perform, Option.some.injEq] at taken
    subst taken
    have moved := (tables.stick co here (.calling session)).setThread session co
      (by simp [Service.setPlace, Place.awaits])
    exact suspended_stepped _ co (.calling session) (moved.frame rfl rfl rfl rfl rfl rfl) rfl rfl rfl
      rfl (by simp) rfl
  | sleep session =>
    simp only [Service.perform, Option.some.injEq] at taken
    subst taken
    have moved := (tables.stick co here (.sleeping session)).setThread session co
      (by simp [Service.setPlace, Place.awaits])
    have asleep := moved.setSleep session co
      (by simp [Service.setPlace, Service.setEntry, Place.sleeps])
    exact suspended_stepped _ co (.sleeping session) (asleep.frame rfl rfl rfl rfl rfl rfl) rfl rfl
      rfl rfl (by simp) rfl
  | wait session =>
    simp only [Service.perform, Option.some.injEq] at taken
    subst taken
    have moved := (tables.stick co here (.waiting session)).setThread session co
      (by simp [Service.setPlace, Place.awaits])
    have asleep := moved.setSleep session co
      (by simp [Service.setPlace, Service.setEntry, Place.sleeps])
    exact suspended_stepped _ co (.waiting session) (asleep.frame rfl rfl rfl rfl rfl rfl) rfl rfl
      rfl rfl (by simp) rfl
  | ret =>
    simp only [Service.perform, Option.some.injEq] at taken
    split at taken
    · exact taken ▸ scheduled.withBooks _ _ (.returned co running)
    · exact taken ▸ stuck_stepped tables co here _ _ (.returned co running)
  | askResponse =>
    simp only [Service.perform, Option.some.injEq] at taken
    split at taken
    · exact taken ▸ scheduled.withBooks _ _ (.asked co running)
    · exact taken ▸ stuck_stepped tables co here _ _ (.asked co running)
  | test k =>
    simp only [Service.perform, Option.some.injEq] at taken
    exact taken ▸ scheduled.withBooks _ _ (.tested k)
  | respond k ok packs =>
    simp only [Service.perform, Option.some.injEq] at taken
    exact taken ▸ scheduled.withBooks _ _ (.responded k ok packs)
  | wakeup other =>
    simp only [Service.perform, Option.some.injEq] at taken
    split at taken
    · subst taken
      exact ⟨scheduled.frame rfl rfl rfl rfl rfl rfl rfl, Stepped.still _ (.same _) rfl rfl⟩
    · subst taken
      exact ⟨scheduled, Stepped.still _ (.same _) rfl rfl⟩
  | term address order =>
    obtain ⟨dead, queue, rfl, _⟩ := errorDispatch_eq 0 address order taken
    refine ⟨scheduled.frame rfl rfl rfl rfl rfl rfl rfl, ?_⟩
    exact Stepped.still _ (.died address order dead) rfl rfl
  | fork =>
    simp only [Service.perform, Option.some.injEq] at taken
    subst taken
    have created := coCreate_created tables .forked
    exact ⟨created.queued scheduled, created.stepped _ rfl rfl rfl⟩
  | timeout session =>
    simp only [Service.perform] at taken
    split at taken
    · simp only [Option.some.injEq] at taken
      subst taken
      have created := coCreate_created tables (.due session)
      obtain ⟨ready, still⟩ := created.scheduled scheduled
      have set := ready.setThread session (s.coCreate (.due session)).1
        (by simp [created.moved, Place.awaits])
      exact ⟨⟨set, still⟩, created.stepped _ rfl rfl rfl⟩
    · simp only [Option.some.injEq] at taken
      subst taken
      have created := coCreate_created tables .fresh
      exact ⟨created.scheduled scheduled, created.stepped _ rfl rfl rfl⟩
  | finish =>
    simp only [Service.perform, Option.some.injEq] at taken
    subst taken
    refine ⟨tables.finish co here, .finished co running, ?_, ?_, le_refl _⟩
    · intro other free
      by_cases same : other = co
      · exact .inr ⟨same ▸ running, same ▸ rfl⟩
      · simp [Service.finish, Service.setPlace, same] at free
        exact .inl free
    · intro other fresh
      by_cases same : other = co
      · simp [Service.finish, Service.setPlace, same] at fresh
      · simp [Service.finish, Service.setPlace, same] at fresh
        exact .inl fresh
  | raise =>
    simp only [Service.perform, Option.some.injEq] at taken
    subst taken
    have dead := ((tables.stick co here .dead).withBooks (s.toBooks.fail co)).unwind
    refine ⟨dead, Stepped.moved _ (.failed co running) co .dead rfl rfl (by simp) (le_refl _)⟩
  | exit =>
    simp only [Service.perform, Option.some.injEq] at taken
    subst taken
    obtain ⟨pool, poolOnce, unborn, entry, sleep, _, _⟩ := tables.stick co here .stuck
    refine back_stepped _ co ?_ (.left co running) rfl rfl
    exact ⟨pool, poolOnce, unborn, entry, sleep, by simp, List.nodup_nil⟩
  | yield =>
    simp only [Service.perform, Option.some.injEq] at taken
    subst taken
    exact back_stepped _ co (tables.stick co here .stuck) (.same _) rfl rfl
  | _ => simp [Service.perform] at taken

theorem step_stepped {s t : Service} (scheduled : Scheduled s) (action : Action)
    (taken : s.step action = some t) : Scheduled t ∧ Stepped s action t := by
  have tables := scheduled.toTables
  unfold Service.step at taken
  split at taken
  case h_1 =>
    split at taken
    · contradiction
    · exact receive_stepped scheduled _ taken
  case h_2 co running => exact perform_stepped scheduled co running _ taken
  case h_3 co mode =>
    split at taken
    case isTrue =>
      simp only at taken
      split at taken
      case h_1 =>
        simp only [Option.some.injEq] at taken
        subst taken
        refine ⟨Tables.parked (tables.frame rfl rfl rfl rfl rfl rfl) (by simp), ?_⟩
        exact Stepped.still _ (.same _) rfl rfl
      case h_2 session found =>
        simp only [Option.some.injEq] at taken
        subst taken
        have sleeps := tables.sleep co session found
        have erased : Tables { s with wakeupSession := s.wakeupSession.erase co } :=
          tables.frame rfl rfl rfl rfl rfl rfl
        have resumed := awaiting_resumed erased session co (s.depth + 1)
          (Place.awaits_of_sleeps _ _ sleeps) (some .broken) (by simp)
        exact resumed.stepped _ rfl rfl rfl
    case isFalse => contradiction
  case h_4 =>
    split at taken
    · simp only [Option.some.injEq] at taken
      subst taken
      refine ⟨Tables.parked (tables.frame rfl rfl rfl rfl rfl rfl) (by simp), ?_⟩
      exact Stepped.still _ (.same _) rfl rfl
    · contradiction
  case h_5 =>
    split at taken
    case h_1 =>
      simp only [Option.some.injEq] at taken
      subst taken
      refine ⟨tables.back, ?_⟩
      obtain ⟨mode, depth, frame⟩ := back_frame s
      rw [frame]
      exact Stepped.still _ (.same _) rfl rfl
    case h_2 session rest _ =>
      have shorter : Tables { s with errorQueue := rest } := tables.frame rfl rfl rfl rfl rfl rfl
      simp only at taken
      split at taken
      case h_1 co found =>
        simp only [Option.some.injEq] at taken
        subst taken
        have resumed := awaiting_resumed shorter session co s.depth (tables.entry session co found)
          none (by simp)
        exact resumed.stepped _ rfl rfl rfl
      case h_2 =>
        simp only [Option.some.injEq] at taken
        subst taken
        have freed := setEntry_none shorter session none (by simp)
        exact ⟨freed.unwind, Stepped.still _ (.same _) rfl rfl⟩
  case h_6 co mode =>
    split at taken
    case isTrue inside =>
      simp only [Option.some.injEq] at taken
      subst taken
      have place := tables.forks co inside
      have shorter : Tables { s with forkQueue := s.forkQueue.erase co } := by
        obtain ⟨pool, poolOnce, unborn, entry, sleep, forks, forksOnce⟩ := tables
        refine ⟨pool, poolOnce, unborn, entry, sleep, ?_, forksOnce.erase co⟩
        intro other left
        exact forks other (List.mem_of_mem_erase left)
      have resumed := resume_resumed shorter co 0 (by simp [place, Place.suspended])
        (tables.noEntry co (by simp [place, Place.awaits])) tables.forksOnce.not_mem_erase
      exact resumed.stepped _ rfl rfl rfl
    case isFalse => contradiction
  case h_7 =>
    split at taken
    · simp only [Option.some.injEq] at taken
      subst taken
      refine ⟨Tables.parked (tables.frame rfl rfl rfl rfl rfl rfl) (by simp), ?_⟩
      exact Stepped.still _ (.same _) rfl rfl
    · contradiction
  case h_8 => contradiction

end Pskynet.Skynet
