import Pskynet.Skynet.Coroutines

set_option autoImplicit false

namespace Pskynet.Skynet

def Service.resumes (s : Service) (co : Nat) : Action → Prop
  | .wake other => other = co ∧ co ∈ s.wakeupSession
  | .response session => s.sessionIdCoroutine session = some (.thread co)
  | .drain => ∃ session rest, s.errorQueue = session :: rest ∧
      s.sessionIdCoroutine session = some (.thread co)
  | _ => False

-- What a step does to the coroutines that do not run: they stay where they are until one of them
-- goes on.
structure Sleepers (s : Service) (action : Action) (t : Service) : Prop where
  others : ∀ co, s.mode ≠ .running co → t.mode ≠ .running co → (s.place co).free = false →
    t.place co = s.place co ∧ t.sleepSession co = s.sleepSession co
  resumed : ∀ co, t.mode = .running co →
    s.mode = .running co ∨ (s.place co).free ∨ s.place co = .forked ∨ s.resumes co action
  added : ∀ co ∈ t.wakeupSession, co ∈ s.wakeupSession ∨ action = .wakeup co
  kept : ∀ co ∈ s.wakeupSession, co ∈ t.wakeupSession ∨
    action = .wake co ∧ (s.sleepSession co ≠ none → t.mode = .running co)

theorem Sleepers.moved {s t : Service} (action : Action) (co : Nat)
    (still : ∀ other, other ≠ co →
      t.place other = s.place other ∧ t.sleepSession other = s.sleepSession other)
    (who : s.mode = .running co ∨ t.mode = .running co ∨ (s.place co).free)
    (mode : ∀ other, t.mode = .running other →
      s.mode = .running other ∨ (s.place other).free ∨ s.place other = .forked ∨
        s.resumes other action)
    (wakes : t.wakeupSession = s.wakeupSession) : Sleepers s action t := by
  refine ⟨?_, mode, ?_, ?_⟩
  · intro other before after busy
    refine still other ?_
    intro same
    subst same
    rcases who with runs | runs | free
    · exact before runs
    · exact after runs
    · rw [busy] at free
      contradiction
  · intro other inside
    exact .inl (wakes ▸ inside)
  · intro other inside
    exact .inl (wakes ▸ inside)

theorem Sleepers.still {s t : Service} (action : Action) (place : t.place = s.place)
    (sleep : t.sleepSession = s.sleepSession)
    (mode : ∀ other, t.mode = .running other → s.mode = .running other)
    (wakes : t.wakeupSession = s.wakeupSession) : Sleepers s action t := by
  refine ⟨?_, fun other running => .inl (mode other running), ?_, ?_⟩
  · intro other _ _ _
    rw [place, sleep]
    exact ⟨rfl, rfl⟩
  · intro other inside
    exact .inl (wakes ▸ inside)
  · intro other inside
    exact .inl (wakes ▸ inside)

theorem resume_frame (s : Service) (co depth : Nat) (here : (s.place co).suspended) :
    ∃ watching entries sleep, s.resume co depth = { s.setPlace co .running with
        watchingSession := watching
        sessionIdCoroutine := entries
        sleepSession := sleep
        mode := .running co
        depth := depth } ∧
      ∀ other, other ≠ co → sleep other = s.sleepSession other := by
  unfold Service.resume
  cases place : s.place co with
  | unborn | running | stuck | pooled | dead =>
    rw [place] at here
    contradiction
  | fresh | due session | forked | calling session =>
    exact ⟨_, _, _, rfl, fun _ _ => rfl⟩
  | sleeping session | waiting session =>
    refine ⟨_, _, _, rfl, ?_⟩
    intro other apart
    exact Function.update_of_ne apart _ _

theorem Sleepers.resume {s base : Service} (action : Action) (co depth : Nat)
    (here : (base.place co).suspended)
    (still : ∀ other, other ≠ co →
      base.place other = s.place other ∧ base.sleepSession other = s.sleepSession other)
    (wakes : base.wakeupSession = s.wakeupSession)
    (why : (s.place co).free ∨ s.place co = .forked ∨ s.resumes co action) :
    Sleepers s action (base.resume co depth) := by
  obtain ⟨watching, entries, sleep, frame, same⟩ := resume_frame base co depth here
  rw [frame]
  refine .moved action co ?_ (.inr (.inl rfl)) ?_ wakes
  · intro other apart
    obtain ⟨place, asleep⟩ := still other apart
    exact ⟨by simp [Service.setPlace, Function.update_of_ne apart, place],
      (same other apart).trans asleep⟩
  · intro other running
    have is : co = other := Mode.running.inj running
    exact .inr (is ▸ why)

theorem Created.sleepers {s t : Service} {place : Place} {co : Nat} (created : Created s place co t)
    (other : Nat) (apart : other ≠ co) :
    t.place other = s.place other ∧ t.sleepSession other = s.sleepSession other := by
  refine ⟨created.still apart, ?_⟩
  obtain ⟨pool, coroutines, _, frame⟩ := created.frame
  rw [frame]
  rfl

theorem Created.wakes {s t : Service} {place : Place} {co : Nat} (created : Created s place co t) :
    t.wakeupSession = s.wakeupSession := by
  obtain ⟨pool, coroutines, _, frame⟩ := created.frame
  rw [frame]
  rfl

theorem receive_sleepers {s t : Service} (tables : Tables s) (action : Action)
    (taken : s.receive action = some t) : Sleepers s action t := by
  cases action with
  | response session =>
    simp only [Service.receive] at taken
    split at taken
    case h_1 =>
      simp only [Option.some.injEq] at taken
      subst taken
      exact .still _ rfl rfl (by simp [Service.unwind]) rfl
    case h_2 =>
      simp only [Option.some.injEq] at taken
      subst taken
      exact .still _ rfl rfl (by simp [Service.unwind]) rfl
    case h_3 co found =>
      simp only [Option.some.injEq] at taken
      subst taken
      exact .resume _ co 0 (Place.suspended_of_awaits _ session (tables.entry session co found))
        (fun _ _ => ⟨rfl, rfl⟩) rfl (.inr (.inr found))
  | request session source known unpacks =>
    simp only [Service.receive] at taken
    cases known with
    | false =>
      simp only [Bool.false_eq_true, if_false, Option.some.injEq] at taken
      subst taken
      exact .still _ rfl rfl (by simp [Service.unwind]) rfl
    | true =>
      have created := coCreate_created tables .fresh
      generalize (s.coCreate .fresh).1 = co at created taken
      generalize (s.coCreate .fresh).2 = base at created taken
      simp only [if_true, Option.some.injEq] at taken
      split at taken
      · subst taken
        exact .resume _ co 0 (by simp [created.moved, Place.suspended]) created.sleepers
          created.wakes (.inl created.free)
      · subst taken
        exact .moved _ co created.sleepers (.inr (.inr created.free)) (by simp [Service.unwind])
          created.wakes
  | error session source order =>
    simp only [Service.receive] at taken
    have created := coCreate_created tables .fresh
    generalize (s.coCreate .fresh).1 = co at created taken
    generalize (s.coCreate .fresh).2 = base at created taken
    obtain ⟨dispatched, told, rfl⟩ := Option.map_eq_some_iff.mp taken
    obtain ⟨dead, queue, rfl, _⟩ := errorDispatch_eq session source order told
    obtain ⟨watching, entries, sleep, frame, same⟩ := resume_frame
      { base with toBooks := base.toBooks.start co session source } co 0
      (by simp [created.moved, Place.suspended])
    rw [frame]
    refine .moved _ co ?_ (.inr (.inr created.free)) (by simp [Service.finish]) created.wakes
    intro other apart
    obtain ⟨place, asleep⟩ := created.sleepers other apart
    exact ⟨by simp [Service.finish, Service.setPlace, Function.update_of_ne apart, place],
      (same other apart).trans asleep⟩
  | _ => simp [Service.receive] at taken

theorem Sleepers.stops {s t : Service} (action : Action) (co : Nat) (running : s.mode = .running co)
    (place : Place) (moved : t.place = Function.update s.place co place)
    (sleep : ∀ other, other ≠ co → t.sleepSession other = s.sleepSession other)
    (mode : ∀ other, t.mode ≠ .running other) (wakes : t.wakeupSession = s.wakeupSession) :
    Sleepers s action t := by
  refine .moved action co ?_ (.inl running) (fun other runs => absurd runs (mode other)) wakes
  intro other apart
  exact ⟨by rw [moved, Function.update_of_ne apart], sleep other apart⟩

theorem back_mode (s : Service) (co : Nat) : s.back.mode ≠ .running co := by
  unfold Service.back
  split <;> simp

theorem Sleepers.stops_back {s t : Service} (action : Action) (co : Nat)
    (running : s.mode = .running co) (moved : t.place = Function.update s.place co .stuck)
    (sleep : t.sleepSession = s.sleepSession) (wakes : t.wakeupSession = s.wakeupSession) :
    Sleepers s action t.back := by
  have mode := back_mode t
  obtain ⟨last, depth, frame⟩ := back_frame t
  rw [frame] at mode ⊢
  refine .stops action co running .stuck moved ?_ mode wakes
  intro other _
  exact congrFun sleep other

theorem Sleepers.creates {s base t : Service} {place : Place} {new : Nat} (action : Action)
    (created : Created s place new base) (moved : t.place = base.place)
    (sleep : t.sleepSession = base.sleepSession) (mode : t.mode = base.mode)
    (wakes : t.wakeupSession = base.wakeupSession) : Sleepers s action t := by
  refine .moved action new ?_ (.inr (.inr created.free)) ?_ (wakes.trans created.wakes)
  · intro other apart
    rw [moved, sleep]
    exact created.sleepers other apart
  · intro other running
    rw [mode, created.mode] at running
    exact .inl running

theorem perform_sleepers {s t : Service} (tables : Tables s) (co : Nat)
    (running : s.mode = .running co) (action : Action) (taken : s.perform co action = some t) :
    Sleepers s action t := by
  cases action with
  | call session address =>
    simp only [Service.perform, Option.some.injEq] at taken
    subst taken
    exact .stops _ co running (.calling session) rfl (fun _ _ => rfl) (by simp) rfl
  | sleep session =>
    simp only [Service.perform, Option.some.injEq] at taken
    subst taken
    exact .stops _ co running (.sleeping session) rfl
      (fun _ apart => Function.update_of_ne apart _ _) (by simp) rfl
  | wait session =>
    simp only [Service.perform, Option.some.injEq] at taken
    subst taken
    exact .stops _ co running (.waiting session) rfl
      (fun _ apart => Function.update_of_ne apart _ _) (by simp) rfl
  | ret =>
    simp only [Service.perform, Option.some.injEq] at taken
    split at taken
    · subst taken
      exact .still _ rfl rfl (fun _ runs => runs) rfl
    · subst taken
      exact .stops _ co running .stuck rfl (fun _ _ => rfl) (by simp [Service.unwind]) rfl
  | askResponse =>
    simp only [Service.perform, Option.some.injEq] at taken
    split at taken
    · subst taken
      exact .still _ rfl rfl (fun _ runs => runs) rfl
    · subst taken
      exact .stops _ co running .stuck rfl (fun _ _ => rfl) (by simp [Service.unwind]) rfl
  | test k =>
    simp only [Service.perform, Option.some.injEq] at taken
    subst taken
    exact .still _ rfl rfl (fun _ runs => runs) rfl
  | respond k ok packs =>
    simp only [Service.perform, Option.some.injEq] at taken
    subst taken
    exact .still _ rfl rfl (fun _ runs => runs) rfl
  | wakeup other =>
    simp only [Service.perform, Option.some.injEq] at taken
    split at taken
    case isTrue =>
      subst taken
      refine ⟨fun _ _ _ _ => ⟨rfl, rfl⟩, fun _ runs => .inl runs, ?_, ?_⟩
      · intro sleeper inside
        rcases List.mem_append.mp inside with old | new
        · exact .inl old
        · exact .inr (by rw [List.mem_singleton.mp new])
      · intro sleeper inside
        exact .inl (List.mem_append_left _ inside)
    case isFalse =>
      subst taken
      exact .still _ rfl rfl (fun _ runs => runs) rfl
  | term address order =>
    obtain ⟨dead, queue, rfl, _⟩ := errorDispatch_eq 0 address order taken
    exact .still _ rfl rfl (fun _ runs => runs) rfl
  | fork =>
    simp only [Service.perform, Option.some.injEq] at taken
    subst taken
    exact .creates _ (coCreate_created tables .forked) rfl rfl rfl rfl
  | timeout session =>
    simp only [Service.perform] at taken
    split at taken
    · simp only [Option.some.injEq] at taken
      subst taken
      exact .creates _ (coCreate_created tables (.due session)) rfl rfl rfl rfl
    · simp only [Option.some.injEq] at taken
      subst taken
      exact .creates _ (coCreate_created tables .fresh) rfl rfl rfl rfl
  | finish =>
    simp only [Service.perform, Option.some.injEq] at taken
    subst taken
    exact .stops _ co running .pooled rfl (fun _ _ => rfl) (by simp [Service.finish]) rfl
  | raise =>
    simp only [Service.perform, Option.some.injEq] at taken
    subst taken
    exact .stops _ co running .dead rfl (fun _ _ => rfl) (by simp [Service.fail, Service.unwind]) rfl
  | exit =>
    simp only [Service.perform, Option.some.injEq] at taken
    subst taken
    exact .stops_back _ co running rfl rfl rfl
  | yield =>
    simp only [Service.perform, Option.some.injEq] at taken
    subst taken
    exact .stops_back _ co running rfl rfl rfl
  | _ => simp [Service.perform] at taken

theorem wake_sleepers {s : Service} (tables : Tables s) (co session depth : Nat)
    (listed : co ∈ s.wakeupSession) (found : s.sleepSession co = some session) :
    Sleepers s (.wake co)
      ((Service.setEntry { s with wakeupSession := s.wakeupSession.erase co } session
        (some .broken)).resume co depth) := by
  have sleeps := tables.sleep co session found
  obtain ⟨watching, entries, sleep, frame, same⟩ := resume_frame
    (Service.setEntry { s with wakeupSession := s.wakeupSession.erase co } session (some .broken))
    co depth (Place.suspended_of_sleeps _ session sleeps)
  rw [frame]
  refine ⟨?_, ?_, ?_, ?_⟩
  · intro other _ after _
    have apart : other ≠ co := by
      intro is
      exact after (by rw [is])
    exact ⟨by simp [Service.setPlace, Service.setEntry, Function.update_of_ne apart],
      same other apart⟩
  · intro other running
    have is : co = other := Mode.running.inj running
    exact .inr (.inr (.inr (is ▸ ⟨rfl, listed⟩)))
  · intro other inside
    exact .inl (List.mem_of_mem_erase inside)
  · intro other inside
    by_cases is : other = co
    · exact .inr ⟨by rw [is], fun _ => by rw [is]⟩
    · exact .inl ((List.mem_erase_of_ne is).mpr inside)

theorem step_sleepers {s t : Service} (scheduled : Scheduled s) (action : Action)
    (taken : s.step action = some t) : Sleepers s action t := by
  have tables := scheduled.toTables
  unfold Service.step at taken
  split at taken
  case h_1 =>
    split at taken
    · contradiction
    · exact receive_sleepers tables _ taken
  case h_2 co running => exact perform_sleepers tables co running _ taken
  case h_3 co mode =>
    split at taken
    case isTrue listed =>
      simp only at taken
      split at taken
      case h_1 awake =>
        simp only [Option.some.injEq] at taken
        subst taken
        refine ⟨fun _ _ _ _ => ⟨rfl, rfl⟩, by simp, ?_, ?_⟩
        · intro other inside
          exact .inl (List.mem_of_mem_erase inside)
        · intro other inside
          by_cases same : other = co
          · exact .inr ⟨by rw [same], fun asleep => absurd (same ▸ awake) asleep⟩
          · exact .inl ((List.mem_erase_of_ne same).mpr inside)
      case h_2 session found =>
        simp only [Option.some.injEq] at taken
        exact taken ▸ wake_sleepers tables co session _ listed found
    case isFalse => contradiction
  case h_4 =>
    split at taken
    · simp only [Option.some.injEq] at taken
      subst taken
      exact .still _ rfl rfl (by simp) rfl
    · contradiction
  case h_5 mode =>
    split at taken
    case h_1 =>
      simp only [Option.some.injEq] at taken
      subst taken
      have last := back_mode s
      obtain ⟨mode, depth, frame⟩ := back_frame s
      rw [frame] at last ⊢
      exact .still _ rfl rfl (fun other runs => absurd runs (last other)) rfl
    case h_2 session rest queue =>
      simp only at taken
      split at taken
      case h_1 co found =>
        simp only [Option.some.injEq] at taken
        subst taken
        exact .resume _ co _ (Place.suspended_of_awaits _ session (tables.entry session co found))
          (fun _ _ => ⟨rfl, rfl⟩) rfl (.inr (.inr ⟨session, rest, queue, found⟩))
      case h_2 =>
        simp only [Option.some.injEq] at taken
        subst taken
        exact .still _ rfl rfl (by simp [Service.unwind]) rfl
  case h_6 co mode =>
    split at taken
    case isTrue inside =>
      simp only [Option.some.injEq] at taken
      subst taken
      have place := tables.forks co inside
      exact .resume _ co 0 (by simp [place, Place.suspended]) (fun _ _ => ⟨rfl, rfl⟩) rfl
        (.inr (.inl place))
    case isFalse => contradiction
  case h_7 =>
    split at taken
    · simp only [Option.some.injEq] at taken
      subst taken
      exact .still _ rfl rfl (by simp) rfl
    · contradiction
  case h_8 => contradiction

end Pskynet.Skynet
