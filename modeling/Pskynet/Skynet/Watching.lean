import Pskynet.Skynet.Ledger

set_option autoImplicit false

namespace Pskynet.Skynet

open Transition

def Books.source (b : Books) (co : Nat) : Option Nat :=
  (b.serving co).bind fun r => (b.requests[r]?).map Request.source

def Service.handlers (s : Service) (address : Nat) : Finset Nat :=
  (Finset.range s.coroutines).filter fun co => s.place co ≠ .fresh ∧ s.source co = some address

def Books.openClosures (b : Books) (address : Nat) : Nat :=
  b.closures.countP fun closure => closure.address = address ∧ closure.f = .ready

-- How `watching_service` holds a number.
def counter (n : Nat) : Option Nat := if n = 0 then none else some n

def WatchExact (s : Service) : Prop :=
  ∀ address, s.watchingService address =
    counter ((s.handlers address).card + s.openClosures address)

def Releases (s : Service) : Action → Prop
  | .raise => ∀ co, s.mode = .running co → s.sessionCoroutineAddress co = none
  | .request _ _ known unpacks => known = true → unpacks = true
  | .test k => ∀ closure : Closure, s.closures[k]? = some closure →
      s.deadService closure.address = true →
      closure.f = .ready ∨ s.watchingService closure.address = none
  | _ => True

-- The counters with `held` for the number of coroutines of each service.
def Balanced (b : Books) (held : Nat → Nat) : Prop :=
  ∀ address, b.watchingService address = counter (held address + b.openClosures address)

theorem releaseWatching_counter (b : Books) (address n : Nat)
    (counts : b.watchingService address = counter (n + 1)) :
    b.releaseWatching address =
      { b with watchingService := Function.update b.watchingService address (counter n) } := by
  have known : b.watchingService address = some (n + 1) := by simpa [counter] using counts
  simp only [Books.releaseWatching, known, Nat.add_sub_cancel]
  cases n with
  | zero => rfl
  | succ n => simp [counter]

theorem releaseWatching_none (b : Books) (address : Nat) (known : b.watchingService address = none) :
    b.releaseWatching address = b := by
  simp [Books.releaseWatching, known]

theorem openClosures_setPack (b : Books) (k : Nat) (f : Pack) (closure : Closure)
    (found : b.closures[k]? = some closure) (used : f ≠ .ready) (address : Nat) :
    (b.setPack k f).openClosures address +
      (if closure.address = address ∧ closure.f = .ready then 1 else 0) =
      b.openClosures address := by
  obtain ⟨within, is⟩ := List.getElem?_eq_some_iff.mp found
  have whole : b.closures = b.closures.take k ++ closure :: b.closures.drop (k + 1) := by
    rw [← is, ← List.drop_eq_getElem_cons within, List.take_append_drop]
  simp only [Books.openClosures, Books.setPack, List.modify_eq_take_cons_drop within, is]
  nth_rewrite 3 [whole]
  simp only [List.countP_append, List.countP_cons, used, and_false, decide_false]
  simp
  omega

theorem Balanced.frame {a b : Books} {held : Nat → Nat} (balanced : Balanced a held)
    (watching : b.watchingService = a.watchingService) (closures : b.closures = a.closures) :
    Balanced b held := by
  intro address
  rw [watching, balanced address]
  simp only [Books.openClosures, closures]

theorem Balanced.start {b : Books} {held : Nat → Nat} (balanced : Balanced b held)
    (co session source : Nat) :
    Balanced (b.start co session source) (Function.update held source (held source + 1)) := by
  intro address
  have same : (b.start co session source).openClosures = b.openClosures := rfl
  rw [same]
  by_cases is : address = source
  · subst is
    have before := balanced address
    simp only [Books.start, Function.update_self, before, counter]
    split
    · rename_i none_
      split at none_ <;> simp_all
    · rename_i ref known
      split at known <;> simp_all
      omega
  · simp only [Books.start, Function.update_of_ne is]
    exact balanced address

theorem Balanced.release {b : Books} {held : Nat → Nat} (balanced : Balanced b held)
    (address n : Nat) (one : held address = n + 1) :
    Balanced (b.releaseWatching address) (Function.update held address n) := by
  have before : b.watchingService address = counter (n + b.openClosures address + 1) := by
    rw [balanced address, one]
    congr 1
    omega
  rw [releaseWatching_counter b address _ before]
  intro other
  change Function.update b.watchingService address _ other =
    counter (Function.update held address n other + b.openClosures other)
  by_cases is : other = address
  · simp [is]
  · simp only [Function.update_of_ne is]
    exact balanced other

theorem Balanced.close {b : Books} {held : Nat → Nat} (balanced : Balanced b held) (k : Nat)
    (f : Pack) (closure : Closure) (found : b.closures[k]? = some closure)
    (ready : closure.f = .ready) (used : f ≠ .ready) :
    Balanced ((b.releaseWatching closure.address).setPack k f) held := by
  have counted := openClosures_setPack b k f closure found used
  have before : b.watchingService closure.address =
      counter (held closure.address + (b.setPack k f).openClosures closure.address + 1) := by
    have one := counted closure.address
    simp only [ready, and_self, if_true] at one
    rw [balanced closure.address, ← one, Nat.add_assoc]
  rw [releaseWatching_counter b closure.address _ before]
  intro other
  have one := counted other
  change Function.update b.watchingService closure.address _ other =
    counter (held other + (b.setPack k f).openClosures other)
  by_cases is : other = closure.address
  · simp [is]
  · simp only [Ne.symm is, false_and, if_false, Nat.add_zero] at one
    rw [Function.update_of_ne is, balanced other, ← one]

theorem Balanced.forget {b : Books} {held : Nat → Nat} (balanced : Balanced b held) (k : Nat)
    (f : Pack) (closure : Closure) (found : b.closures[k]? = some closure)
    (idle : closure.f ≠ .ready) (used : f ≠ .ready) : Balanced (b.setPack k f) held := by
  intro address
  have counted := openClosures_setPack b k f closure found used address
  simp only [idle, and_false, if_false, Nat.add_zero] at counted
  rw [counted]
  exact balanced address

theorem Balanced.exit_none {b : Books} {held : Nat → Nat} (balanced : Balanced b held) (co : Nat)
    (none_ : b.sessionCoroutineAddress co = none) : Balanced (b.exit co) held := by
  refine balanced.frame ?_ ?_
  · simp [Books.exit, none_]
  · simp [Books.exit, none_]

theorem Balanced.exit_some {b : Books} {held : Nat → Nat} (balanced : Balanced b held)
    (co address n : Nat) (known : b.sessionCoroutineAddress co = some address)
    (one : held address = n + 1) : Balanced (b.exit co) (Function.update held address n) := by
  refine (balanced.release address n one).frame ?_ ?_
  · simp [Books.exit, known]
  · simp [Books.exit, known]

theorem Balanced.ret {b : Books} {held : Nat → Nat} (balanced : Balanced b held) (co : Nat) :
    Balanced (b.ret co).1 held := by
  unfold Books.ret
  split
  · exact balanced
  · simp only
    split
    · exact balanced.frame rfl rfl
    · split
      · exact balanced.frame rfl rfl
      · exact balanced.frame rfl rfl

theorem Balanced.response {b : Books} {held : Nat → Nat} (balanced : Balanced b held) (co : Nat) :
    Balanced (b.response co).1 held := by
  unfold Books.response
  split
  case h_1 => exact balanced
  case h_2 =>
    split
    case h_1 => exact balanced
    case h_2 address _ =>
      split
      case h_1 => exact balanced
      case h_2 ref known =>
        intro other
        have before := balanced other
        simp only [Books.openClosures, List.countP_append, List.countP_singleton] at before ⊢
        by_cases is : other = address
        · subst is
          rw [known, counter] at before
          split at before
          · contradiction
          · simp only [Function.update_self, counter, Option.some.injEq] at before ⊢
            simp [before, Nat.add_assoc]
        · simp only [Function.update_of_ne is, before]
          simp [Ne.symm is]

theorem Balanced.test {b : Books} {held : Nat → Nat} (balanced : Balanced b held) (k : Nat)
    (first : ∀ closure : Closure, b.closures[k]? = some closure →
      b.deadService closure.address = true →
      closure.f = .ready ∨ b.watchingService closure.address = none) :
    Balanced (b.test k) held := by
  unfold Books.test
  split
  case h_1 => exact balanced
  case h_2 closure found =>
    split
    case isTrue dead =>
      by_cases ready : closure.f = .ready
      · exact balanced.close k .dead closure found ready (by simp)
      · have nobody := (first closure found dead).resolve_left ready
        rw [releaseWatching_none b _ nobody]
        exact balanced.forget k .dead closure found ready (by simp)
    case isFalse => exact balanced

theorem Balanced.respond {b : Books} {held : Nat → Nat} (balanced : Balanced b held) (k : Nat)
    (ok packs : Bool) : Balanced (b.respond k ok packs) held := by
  unfold Books.respond
  split
  case h_1 => exact balanced
  case h_2 closure found =>
    split
    case h_1 => exact balanced
    case h_2 dead => exact balanced.forget k .gone closure found (by simp [dead]) (by simp)
    case h_3 ready =>
      simp only
      split
      · exact balanced.close k .gone closure found ready (by simp)
      · split
        · exact balanced
        · refine Balanced.close ?_ k .gone closure found ready (by simp)
          exact balanced.frame rfl rfl

theorem Ledger.source_eq {b : Books} (ledger : Ledger b) (co : Nat) :
    b.source co = b.sessionCoroutineAddress co := by
  cases now : b.serving co with
  | none => simp [Books.source, now, (ledger.unserved co now).2]
  | some r =>
    obtain ⟨request, found, _, address⟩ := ledger.served co r now
    simp [Books.source, now, found, address]

structure Watched (s : Service) : Prop extends Sound s where
  unstarted : ∀ co, s.place co = .fresh → s.serving co = none
  exact_ : WatchExact s

theorem mem_handlers {s : Service} (sound : Sound s)
    (unstarted : ∀ co, s.place co = .fresh → s.serving co = none) (address co : Nat) :
    co ∈ s.handlers address ↔ s.sessionCoroutineAddress co = some address := by
  have ledger := sound.clean.toLedger
  rw [Service.handlers, Finset.mem_filter, ledger.source_eq co]
  refine ⟨fun inside => inside.2.2, fun known => ?_⟩
  obtain ⟨r, serves⟩ := ledger.serves_of_address known
  refine ⟨?_, ?_, known⟩
  · rw [Finset.mem_range]
    by_contra beyond
    have unborn := sound.scheduled.unborn co (not_lt.mp beyond)
    have idle := (sound.clean.clean co (by simp [unborn, Place.free])).1
    rw [serves] at idle
    contradiction
  · intro fresh
    rw [unstarted co fresh] at serves
    contradiction

theorem WatchExact.of_balanced {s : Service} {held : Nat → Nat} (balanced : Balanced s.toBooks held)
    (same : ∀ address, (s.handlers address).card = held address) : WatchExact s := by
  intro address
  rw [same]
  exact balanced address

theorem Sound.free_address {s : Service} (sound : Sound s) (co : Nat) (free : (s.place co).free) :
    s.sessionCoroutineAddress co = none :=
  (sound.clean.unserved co (sound.clean.clean co free).1).2

theorem card_handlers_same {s t : Service}
    (before : ∀ address co, co ∈ s.handlers address ↔ s.sessionCoroutineAddress co = some address)
    (after : ∀ address co, co ∈ t.handlers address ↔ t.sessionCoroutineAddress co = some address)
    (same : t.sessionCoroutineAddress = s.sessionCoroutineAddress) (address : Nat) :
    (t.handlers address).card = (s.handlers address).card := by
  congr 1
  ext co
  rw [after, before, same]

theorem card_handlers_start {s t : Service}
    (before : ∀ address co, co ∈ s.handlers address ↔ s.sessionCoroutineAddress co = some address)
    (after : ∀ address co, co ∈ t.handlers address ↔ t.sessionCoroutineAddress co = some address)
    (co source : Nat) (idle : s.sessionCoroutineAddress co = none)
    (moved : t.sessionCoroutineAddress =
      Function.update s.sessionCoroutineAddress co (some source)) (address : Nat) :
    (t.handlers address).card = Function.update (fun address => (s.handlers address).card) source
      ((s.handlers source).card + 1) address := by
  by_cases same : address = source
  · subst same
    have new : co ∉ s.handlers address := by simp [before, idle]
    have all : t.handlers address = insert co (s.handlers address) := by
      ext other
      rw [after, moved, Finset.mem_insert, before, Function.update_apply]
      split <;> simp [*]
    rw [all, Finset.card_insert_of_notMem new, Function.update_self]
  · rw [Function.update_of_ne same]
    congr 1
    ext other
    rw [after, moved, before, Function.update_apply]
    split <;> simp_all [Ne.symm]

theorem card_handlers_exit {s t : Service}
    (before : ∀ address co, co ∈ s.handlers address ↔ s.sessionCoroutineAddress co = some address)
    (after : ∀ address co, co ∈ t.handlers address ↔ t.sessionCoroutineAddress co = some address)
    (co source : Nat) (known : s.sessionCoroutineAddress co = some source)
    (moved : t.sessionCoroutineAddress = Function.update s.sessionCoroutineAddress co none)
    (address : Nat) :
    (s.handlers source).card = (s.handlers source).card - 1 + 1 ∧
    (t.handlers address).card = Function.update (fun address => (s.handlers address).card) source
      ((s.handlers source).card - 1) address := by
  have inside : co ∈ s.handlers source := (before source co).mpr known
  have positive : 0 < (s.handlers source).card := Finset.card_pos.mpr ⟨co, inside⟩
  refine ⟨by omega, ?_⟩
  by_cases same : address = source
  · subst same
    have rest : t.handlers address = (s.handlers address).erase co := by
      ext other
      rw [after, moved, Finset.mem_erase, before, Function.update_apply]
      split <;> simp [*]
    rw [rest, Finset.card_erase_of_mem inside, Function.update_self]
  · rw [Function.update_of_ne same]
    congr 1
    ext other
    rw [after, moved, before, Function.update_apply]
    split <;> simp_all [Ne.symm]

theorem unstarted_step {s t : Service} (sound : Sound s)
    (unstarted : ∀ co, s.place co = .fresh → s.serving co = none) (action : Action)
    (stepped : Stepped s action t) (releases : Releases s action) (co : Nat)
    (fresh : t.place co = .fresh) : t.serving co = none := by
  rcases stepped.fresh co fresh with before | ⟨free, same | ⟨session, source, rfl⟩⟩
  · have rests := sound.scheduled.rests co (by simp [before])
    have apart : co ≠ (s.coCreate .fresh).1 := by
      intro same
      have free := coCreate_free sound.scheduled .fresh
      rw [← same, before] at free
      contradiction
    rw [(stepped.books.others co rests (fun same => absurd same apart)).1]
    exact unstarted co before
  · rw [same]
    exact (sound.clean.clean co free).1
  · exact absurd (releases rfl) (by simp)

theorem Watched.step {s t : Service} (watched : Watched s) (action : Action)
    (releases : Releases s action) (taken : s.step action = some t) : Watched t := by
  have sound := watched.toSound
  obtain ⟨next, stepped⟩ := sound.step action taken
  have unstarted := unstarted_step sound watched.unstarted action stepped releases
  refine ⟨next, unstarted, ?_⟩
  have before := mem_handlers sound watched.unstarted
  have after := mem_handlers next unstarted
  have idle := sound.free_address _ (coCreate_free sound.scheduled .fresh)
  have balanced : Balanced s.toBooks (fun address => (s.handlers address).card) := watched.exact_
  -- A step that leaves the addresses alone leaves the number of handlers alone.
  have still (kept : Balanced t.toBooks fun address => (s.handlers address).card)
      (same : t.sessionCoroutineAddress = s.sessionCoroutineAddress) : WatchExact t :=
    .of_balanced kept (card_handlers_same before after same)
  have booked := stepped.books
  generalize books : t.toBooks = now at booked
  cases booked with
  | same => exact still (books ▸ balanced) (by rw [books])
  | started session source unpacks =>
    refine .of_balanced (books ▸ balanced.start _ session source) ?_
    exact card_handlers_start before after _ source idle (by rw [books]; rfl)
  | told session source order dead =>
    -- The coroutine of an error message takes what it gives back.
    have started := balanced.start (s.coCreate .fresh).1 session source
    have noted : Balanced { s.toBooks.start (s.coCreate .fresh).1 session source with
        deadService := dead } _ := started.frame rfl rfl
    have exits := noted.exit_some (s.coCreate .fresh).1 source (s.handlers source).card
      (by simp [Books.start]) (by simp)
    simp only [Function.update_idem, Function.update_eq_self] at exits
    refine still (books ▸ exits) ?_
    rw [books]
    simp only [Books.exit, Books.start, Function.update_idem]
    exact Function.update_eq_self_iff.mpr idle.symm
  | died => exact still (by rw [books]; exact balanced.frame rfl rfl) (by rw [books])
  | returned co =>
    obtain ⟨_, _, frame⟩ := ret_frame s.toBooks co
    exact still (books ▸ balanced.ret co) (by rw [books, frame])
  | asked co =>
    obtain ⟨_, _, _, frame⟩ := response_frame s.toBooks co
    exact still (books ▸ balanced.response co) (by rw [books, frame])
  | tested k =>
    obtain ⟨_, _, frame⟩ := test_frame s.toBooks k
    exact still (books ▸ balanced.test k releases) (by rw [books, frame])
  | responded k ok packs =>
    obtain ⟨_, _, _, frame⟩ := respond_frame s.toBooks k ok packs
    exact still (books ▸ balanced.respond k ok packs) (by rw [books, frame])
  | finished co running =>
    cases known : s.sessionCoroutineAddress co with
    | none =>
      refine still (books ▸ balanced.exit_none co known) ?_
      rw [books]
      exact Function.update_eq_self_iff.mpr known.symm
    | some source =>
      have exits := card_handlers_exit before after co source known (by rw [books]; rfl)
      exact .of_balanced (books ▸ balanced.exit_some co source _ known (exits 0).1)
        (fun address => (exits address).2)
  | failed co running =>
    have nobody := releases co running
    have unchanged : s.toBooks.fail co = s.toBooks := by
      cases serves : s.serving co with
      | none => simp [Books.fail, (sound.clean.unserved co serves).1]
      | some r =>
        obtain ⟨_, _, _, known⟩ := sound.clean.served co r serves
        rw [nobody] at known
        contradiction
    exact still (by rw [books, unchanged]; exact balanced) (by rw [books, unchanged])
  | left => exact still (by rw [books]; exact balanced.frame rfl rfl) (by rw [books]; rfl)

theorem start_watched (session : Nat) : Watched (Service.start session) := by
  refine ⟨start_sound session, fun _ _ => rfl, ?_⟩
  intro address
  have nobody : (Service.start session).handlers address = ∅ := by
    refine Finset.filter_eq_empty_iff.mpr ?_
    intro co _ counted
    exact absurd counted.2 (by simp [Service.start, Books.source])
  rw [nobody]
  rfl

theorem watching_exact {session : Nat} {final : Service}
    (path : Path Service.step Releases (Service.start session) final) : WatchExact final := by
  have watched : Watched final := by
    refine path.invariant Watched ?_ (start_watched session)
    intro s action t before releases taken
    exact before.step action releases taken
  exact watched.exact_

def keepClosure : List Action :=
  [.request 1 7 true true, .askResponse, .finish, .awake, .drain, .done, .request 2 7 true true]

theorem closure_and_handler_watched :
    ∃ final, run Service.step (Service.start 0) keepClosure = some final ∧
      final.watchingService 7 = some 2 ∧ WatchExact final := by
  refine ⟨_, rfl, by decide, @watching_exact 0 _ ?_⟩
  refine Path.of_run keepClosure (.refl _) ?_ rfl
  exact ⟨fun _ => rfl, trivial, trivial, trivial, trivial, trivial, fun _ => rfl, trivial⟩

theorem failed_handler_watched :
    ∃ final, run Service.step (Service.start 0) [.request 1 7 true true, .raise] = some final ∧
      final.watchingService 7 = some 1 ∧ final.handlers 7 = ∅ ∧ final.openClosures 7 = 0 ∧
      ¬WatchExact final := by
  refine ⟨_, rfl, by decide, by decide, by decide, ?_⟩
  intro counted
  exact absurd (counted 7) (by decide)

end Pskynet.Skynet
